import Mathlib
import LayeredConfig.Document.Edit
import LayeredConfig.Proofs.Document.ErrorLines
import LayeredConfig.Proofs.Document.Layout
import LayeredConfig.Proofs.Document.ScalarPositions
import LayeredConfig.Proofs.Document.Reader

/-!
# Reading with a cursor

The reader may also be written as a cursor in the table of lines that puts nodes into a document as
it goes: it looks ahead past comments, it takes comments and lines one by one, and at an item that
starts with a key it puts the rest of the line back as a line of its own. Here every access to a
table may miss, and taking a line misses where no content stands. Calls and the rounds of a loop
may be nested to a given depth only; what lies deeper is missing.
-/

namespace LayeredConfig

open Text

/-- A position in the table of lines, with the document as far as it was read. -/
structure Cursor where
  lines : Array (Nat × Line)
  position : Nat
  document : Document

namespace Cursor

open Reader (Source placement)

abbrev Outcome (α : Type) := Checked SyntaxError α

/-- Places a fault on a line. -/
def placed {α : Type} (number : Nat) (result : Checked SyntaxFault α) : Outcome α :=
  ExceptT.mk (result.run.map (·.mapError (⟨number, ·⟩)))

/-! ## Lines -/

/-- The number, the indentation and the text of the first line of content. -/
def firstContent? : Source → Option (Nat × Nat × List Char)
  | [] => none
  | (_, .comment ..) :: rest => firstContent? rest
  | (number, .content indent text) :: _ => some (number, indent, text)

/-- Looks ahead from the position on, which must not lie behind the table. -/
def peek? (c : Cursor) : Option (Option (Nat × Nat × List Char)) :=
  if c.position ≤ c.lines.size then some (firstContent? (c.lines.toList.drop c.position)) else none

def takeComments (c : Cursor) : List String × Cursor :=
  match _h : c.lines[c.position]? with
  | some (_, .comment _ text) =>
    let (comments, c') := takeComments { c with position := c.position + 1 }
    (String.ofList text :: comments, c')
  | _ => ([], c)
termination_by c.lines.size - c.position
decreasing_by
  obtain ⟨hlt, -⟩ := Array.getElem?_eq_some_iff.1 _h
  omega

/-- Takes a line of content. -/
def takeLine? (c : Cursor) : Option ((Nat × List Char) × Cursor) :=
  match c.lines[c.position]? with
  | some (number, .content _ text) => some ((number, text), { c with position := c.position + 1 })
  | _ => none

/-- Writes over the line before the position and goes back to it. -/
def putBack? (c : Cursor) (line : Nat × Line) : Option Cursor :=
  if 0 < c.position ∧ c.position - 1 < c.lines.size then
    some { c with lines := c.lines.setIfInBounds (c.position - 1) line, position := c.position - 1 }
  else none

/-! ## Nodes -/

def add (c : Cursor) (kind : NodeKind) : NodeId × Cursor :=
  let (d, id) := c.document.addNode kind
  (id, { c with document := d })

/-- Changes the comments of a node of the table. -/
def comment? (c : Cursor) (id : NodeId) (f : Comments → Comments) : Option Cursor :=
  if id.index < c.document.nodes.size then
    some { c with document := c.document.modify id fun node =>
      { node with comments := f node.comments } }
  else none

def appendEntry (c : Cursor) (map key value : NodeId) : Cursor :=
  { c with document := c.document.appendEntry map key value }

def appendItem (c : Cursor) (seq item : NodeId) : Cursor :=
  { c with document := c.document.modify seq fun node =>
      match node.kind with
      | .sequence items => { node with kind := .sequence (items ++ [item]) }
      | _ => node }

/-! ## Blocks -/

/-- The node of a value that stands on the line of its key or dash, which its first byte tells. -/
def inlineNode (text : List Char) : Checked SyntaxFault (NodeKind × Option String) := do
  if ← isAt? text 0 '\x7b' then
    match text with
    | '\x7b' :: '\x7d' :: tail => return (.mapping [], ← Checked.of (Inline.trailingComment tail))
    | _ => throw .flowMapping
  else if ← isAt? text 0 '[' then
    match text with
    | '[' :: ']' :: tail => return (.sequence [], ← Checked.of (Inline.trailingComment tail))
    | _ => throw .flowSequence
  else if (← isAt? text 0 '|') || (← isAt? text 0 '>') then throw .blockScalar
  else if (← isAt? text 0 '&') || (← isAt? text 0 '*') then throw .anchorOrAlias
  else if ← isAt? text 0 '!' then throw .tag
  else
    let read ← Inline.scalarAt text
    return (.scalar (String.ofList read.text) read.style,
      ← Checked.of (Inline.trailingComment read.rest))

def inline (number : Nat) (text : List Char) (c : Cursor) :
    Outcome ((NodeId × Option String) × Cursor) := do
  let (kind, comment) ← placed number (inlineNode text)
  let (id, c) := c.add kind
  return ((id, comment), c)

mutual

def mapping (depth indent : Nat) (c : Cursor) : Outcome (NodeId × Cursor) :=
  match depth with
  | 0 => Checked.missing
  | depth + 1 => do
    let (map, c) := c.add (.mapping [])
    let c ← pairs depth indent map c
    return (map, c)

/-- Reads keys at `indent` with their values into a mapping. -/
def pairs (depth indent : Nat) (map : NodeId) (c : Cursor) : Outcome Cursor :=
  match depth with
  | 0 => Checked.missing
  | depth + 1 => do
    match ← c.peek? with
    | none => return c
    | some (number, column, text) =>
      if column < indent then return c
      else if indent < column then throw ⟨number, .unexpectedIndentation⟩
      else if Inline.isItem text then throw ⟨number, .itemAmongKeys⟩
      else
        let (head, c) := c.takeComments
        let ((number, text), c) ← c.takeLine?
        match ← placed number (Inline.splitKeyAt text) with
        | none => throw ⟨number, .missingKey⟩
        | some key =>
          let (keyId, c) := c.add (.scalar (String.ofList key.text) key.style)
          let ((valueId, line), c) ← value depth indent key.rest number c
          let c ← c.comment? keyId fun comments => { comments with head, line }
          pairs depth indent map (c.appendEntry map keyId valueId)

def sequence (depth indent : Nat) (c : Cursor) : Outcome (NodeId × Cursor) :=
  match depth with
  | 0 => Checked.missing
  | depth + 1 => do
    let (seq, c) := c.add (.sequence [])
    let c ← elements depth indent seq c
    return (seq, c)

/-- Reads items whose dashes stand at `indent` into a sequence. -/
def elements (depth indent : Nat) (seq : NodeId) (c : Cursor) : Outcome Cursor :=
  match depth with
  | 0 => Checked.missing
  | depth + 1 => do
    match ← c.peek? with
    | none => return c
    | some (number, column, text) =>
      if column < indent || (column = indent && !Inline.isItem text) then return c
      else if indent < column then throw ⟨number, .unexpectedIndentation⟩
      else
        let (head, c) := c.takeComments
        let ((number, text), c) ← c.takeLine?
        let (_, body) ← cut? 1 text
        let (item, c) ← element depth indent number body c
        let c ← c.comment? item fun comments => { comments with head }
        elements depth indent seq (c.appendItem seq item)

/-- One item, `body` being what stands behind its dash. A key behind the dash is read from a line of
its own. -/
def element (depth indent number : Nat) (body : List Char) (c : Cursor) :
    Outcome (NodeId × Cursor) :=
  match depth with
  | 0 => Checked.missing
  | depth + 1 => do
    let after := body.dropWhile (· == ' ')
    match placement after with
    | .below line =>
      let (id, c) ← nested depth indent c
      let c ← c.comment? id fun comments => { comments with line }
      return (id, c)
    | .inline =>
      if Inline.isItem after then throw ⟨number, .nestedInlineSequence⟩
      else
        match ← placed number (Inline.splitKeyAt after) with
        | some _ =>
          let column := indent + 1 + (byteLength body - byteLength after)
          let c ← c.putBack? (number, .content column after)
          mapping depth column c
        | none =>
          let ((id, line), c) ← inline number after c
          let c ← c.comment? id fun comments => { comments with line }
          return (id, c)

/-- The block under a line at `indent` that has no value of its own. -/
def nested (depth indent : Nat) (c : Cursor) : Outcome (NodeId × Cursor) :=
  match depth with
  | 0 => Checked.missing
  | depth + 1 => do
    match ← c.peek? with
    | none => return c.add (.scalar "" .plain)
    | some (_, column, text) =>
      if indent < column then
        if Inline.isItem text then sequence depth column c else mapping depth column c
      else return c.add (.scalar "" .plain)

/-- The value behind the colon of a key that stands at `indent`. -/
def value (depth indent : Nat) (text : List Char) (number : Nat) (c : Cursor) :
    Outcome ((NodeId × Option String) × Cursor) :=
  match depth with
  | 0 => Checked.missing
  | depth + 1 => do
    match placement (trimStart text) with
    | .inline => inline number (trimStart text) c
    | .below line =>
      match ← c.peek? with
      | none =>
        let (id, c) ← nested depth indent c
        return ((id, line), c)
      | some (_, column, text) =>
        if Inline.isItem text && indent ≤ column then
          let (id, c) ← sequence depth column c
          return ((id, line), c)
        else
          let (id, c) ← nested depth indent c
          return ((id, line), c)

end

/-! ## Files -/

/-- A file that holds nothing but a pair of braces. -/
def emptyRoot (c : Cursor) : Outcome (NodeId × Cursor) := do
  let (head, c) := c.takeComments
  let ((number, text), c) ← c.takeLine?
  match text with
  | '\x7b' :: '\x7d' :: tail =>
    let line ← placed number (Checked.of (Inline.trailingComment tail))
    let (id, c) := c.add (.mapping [])
    let c ← c.comment? id fun comments => { comments with head, line }
    return (id, c)
  | _ => throw ⟨number, .flowMapping⟩

def root (depth : Nat) (c : Cursor) : Outcome (NodeId × Cursor) := do
  match ← c.peek? with
  | none => return (c.document.root, c)
  | some (number, column, text) =>
    if Inline.isItem text then throw ⟨number, .topLevelNotMapping⟩
    else if text.head? = some '\x7b' then emptyRoot c
    else mapping depth column c

def read (depth : Nat) (c : Cursor) : Outcome Document := do
  let (id, c) ← root depth c
  let (foot, c) := c.takeComments
  match ← c.peek? with
  | some (number, _, _) => throw ⟨number, .unexpectedIndentation⟩
  | none =>
    let c ← c.comment? id fun comments => { comments with foot := comments.foot ++ foot }
    return { c.document with root := id }

/-- The document of a text. -/
def parse (depth : Nat) (text : String) : Outcome Document := do
  let src ← Checked.of (Reader.sourceOf 1 (Text.lines text.toList))
  read depth ⟨src.toArray, 0, .empty⟩

end Cursor

end LayeredConfig
