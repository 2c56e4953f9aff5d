import LayeredConfig.Files.Disk
import LayeredConfig.Main
import LayeredConfig.Proofs.Alias.Expansion
import LayeredConfig.Proofs.Alias.FirstWord
import LayeredConfig.Proofs.Alias.Placeholders
import LayeredConfig.Proofs.Alias.Quoting
import LayeredConfig.Proofs.CommandLine.Redaction
import LayeredConfig.Proofs.CommandLine.Source
import LayeredConfig.Proofs.Document.Arrangement
import LayeredConfig.Proofs.Document.Built
import LayeredConfig.Proofs.Document.Comments
import LayeredConfig.Proofs.Document.Cursor
import LayeredConfig.Proofs.Document.CursorReading
import LayeredConfig.Proofs.Document.Cycles
import LayeredConfig.Proofs.Document.DistinctKeys
import LayeredConfig.Proofs.Document.Edit
import LayeredConfig.Proofs.Document.ErrorLines
import LayeredConfig.Proofs.Document.Grafting
import LayeredConfig.Proofs.Document.Growth
import LayeredConfig.Proofs.Document.HiddenKeys
import LayeredConfig.Proofs.Document.IdleLines
import LayeredConfig.Proofs.Document.Inline
import LayeredConfig.Proofs.Document.InsertedLines
import LayeredConfig.Proofs.Document.Layout
import LayeredConfig.Proofs.Document.Lines
import LayeredConfig.Proofs.Document.Locality
import LayeredConfig.Proofs.Document.Orderly
import LayeredConfig.Proofs.Document.Ownership
import LayeredConfig.Proofs.Document.Places
import LayeredConfig.Proofs.Document.Quotation
import LayeredConfig.Proofs.Document.ReadBack
import LayeredConfig.Proofs.Document.Reader
import LayeredConfig.Proofs.Document.References
import LayeredConfig.Proofs.Document.Rereading
import LayeredConfig.Proofs.Document.RoundTrip
import LayeredConfig.Proofs.Document.SameTexts
import LayeredConfig.Proofs.Document.ScalarPositions
import LayeredConfig.Proofs.Document.Shared
import LayeredConfig.Proofs.Document.Sharing
import LayeredConfig.Proofs.Document.Simulation
import LayeredConfig.Proofs.Document.Spelling
import LayeredConfig.Proofs.Document.Tables
import LayeredConfig.Proofs.Document.TreeEdit
import LayeredConfig.Proofs.Document.TreePath
import LayeredConfig.Proofs.Document.Unsupported
import LayeredConfig.Proofs.Document.Writable
import LayeredConfig.Proofs.Files.Additions
import LayeredConfig.Proofs.Files.AllOrNothing
import LayeredConfig.Proofs.Files.Ancestors
import LayeredConfig.Proofs.Files.Completing
import LayeredConfig.Proofs.Files.Creating
import LayeredConfig.Proofs.Files.Entries
import LayeredConfig.Proofs.Files.Faults
import LayeredConfig.Proofs.Files.Names
import LayeredConfig.Proofs.Files.Reading
import LayeredConfig.Proofs.Files.Renaming
import LayeredConfig.Proofs.Files.Replacing
import LayeredConfig.Proofs.Files.Untouched
import LayeredConfig.Proofs.Files.Walk
import LayeredConfig.Proofs.Files.Writing
import LayeredConfig.Proofs.Files.Yields
import LayeredConfig.Proofs.Outcome
import LayeredConfig.Proofs.Settings.Key
import LayeredConfig.Proofs.Store.Agreement
import LayeredConfig.Proofs.Store.Built
import LayeredConfig.Proofs.Store.Calls
import LayeredConfig.Proofs.Store.Conversion
import LayeredConfig.Proofs.Store.FailedEdits
import LayeredConfig.Proofs.Store.History
import LayeredConfig.Proofs.Store.Interrupted
import LayeredConfig.Proofs.Store.Isolation
import LayeredConfig.Proofs.Store.Layers
import LayeredConfig.Proofs.Store.Loading
import LayeredConfig.Proofs.Store.Migration
import LayeredConfig.Proofs.Store.Mirror
import LayeredConfig.Proofs.Store.Reached
import LayeredConfig.Proofs.Store.References
import LayeredConfig.Proofs.Store.Reload
import LayeredConfig.Proofs.Store.Removal
import LayeredConfig.Proofs.Store.ScopeCourse
import LayeredConfig.Proofs.Store.Scopes
import LayeredConfig.Proofs.Store.SecondLoad
import LayeredConfig.Proofs.Store.Settled
import LayeredConfig.Proofs.Store.Snapshot
import LayeredConfig.Proofs.Store.ThreeFiles
import LayeredConfig.Proofs.Store.WriteThrough
import LayeredConfig.Proofs.Text.Bytes
import LayeredConfig.Proofs.Text.Lines
