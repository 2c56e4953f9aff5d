import LayeredConfig.Shell.Pattern
import LayeredConfig.Shell.Session

/-!
# Fields

What comes in the place of a word is split into fields at separators, unless it was quoted. A field
that is a pattern stands for the names of the files that match it, in order, if there are any.
-/

namespace LayeredConfig.Shell

/-- A piece of what comes in the place of a word. -/
inductive Piece where
  | fixed (quoted : Bool) (text : String)
  /-- A text that is split. -/
  | loose (text : String)
  /-- The end of a field. -/
  | boundary
deriving DecidableEq, Repr

namespace Piece

/-- A text that came from a parameter or a command. -/
def ofValue (quoted : Bool) (text : String) : Piece :=
  if quoted then fixed true text else loose text

/-- Several texts, each a field for itself. -/
def ofValues (quoted : Bool) : List String → List Piece
  | [] => []
  | [text] => [ofValue quoted text]
  | text :: rest => ofValue quoted text :: boundary :: ofValues quoted rest

/-- Pieces of the word behind a parameter, as part of what the parameter stands for. -/
def within (quoted : Bool) : Piece → Piece
  | fixed quoted' text =>
    if quoted || quoted' then fixed true text else loose text
  | piece => piece

/-- The characters of pieces that are not split. -/
def marks (pieces : List Piece) : List Mark :=
  pieces.flatMap fun piece => match piece with
    | fixed quoted text => Mark.ofText quoted text
    | loose text => Mark.ofText false text
    | boundary => Mark.ofText true " "

def toText (pieces : List Piece) : String :=
  Mark.toText (marks pieces)

end Piece

/-! ## Splitting -/

/-- Fields that are complete, in reverse, and the one that is being made, if any. -/
structure Splitting where
  fields : List (List Mark) := []
  current : Option (List Mark) := none
  /-- Whether blanks ended the last field, so that one more separator belongs to them. -/
  afterBlanks : Bool := false

namespace Splitting

def endField (s : Splitting) (afterBlanks : Bool) : Splitting :=
  match s.current with
  | some field => ⟨field :: s.fields, none, afterBlanks⟩
  | none => s

def add (s : Splitting) (marks : List Mark) : Splitting :=
  { s with current := some (s.current.getD [] ++ marks), afterBlanks := false }

def isBlankSeparator (c : Char) : Bool := c == ' ' || c == '\t' || c == '\n'

/-- Adds a character that may be one of the separators. -/
def addLoose (separators : List Char) (s : Splitting) (c : Char) : Splitting :=
  if !separators.contains c then s.add [⟨c, false⟩]
  else if isBlankSeparator c then s.endField true
  else match s.current with
  | some field => ⟨field :: s.fields, none, false⟩
  | none =>
    if s.afterBlanks then { s with afterBlanks := false }
    else { s with fields := [] :: s.fields }

def addPiece (separators : List Char) (s : Splitting) : Piece → Splitting
  | .fixed quoted text =>
    if text.isEmpty && !quoted then s else s.add (Mark.ofText quoted text)
  | .loose text => text.toList.foldl (addLoose separators) s
  | .boundary => s.endField false

end Splitting

/-- The fields of pieces. -/
def splitFields (separators : List Char) (pieces : List Piece) : List (List Mark) :=
  let s := pieces.foldl (Splitting.addPiece separators) {}
  (s.endField false).fields.reverse

/-! ## Files -/

namespace Act

/-- The names in a directory that fit a pattern. A dot in front has to be written out. -/
def namesIn (directory : String) (name : List Mark) : Act (List String) := do
  let path ← resolve (if directory.isEmpty then "." else directory)
  match ← namesBelow path with
  | .error _ => return []
  | .ok names =>
    let pattern := Pattern.ofMarks name
    let showsHidden := (name.head?.map Mark.char) == some '.'
    let all := if showsHidden then "." :: ".." :: names else names
    return all.filter fun n =>
      pattern.fits n.toList && (showsHidden || n.toList.head? != some '.')

/-- Splits marks at slashes. -/
def splitSteps (current : List Mark) : List Mark → List (List Mark)
  | [] => [current.reverse]
  | mark :: rest =>
    if mark.char == '/' then current.reverse :: splitSteps [] rest
    else splitSteps (mark :: current) rest

/-- The paths below a beginning that fit the names of a pattern. -/
def pathsBelow (start : String) : List (List Mark) → Act (List String)
  | [] => return [start]
  | name :: rest => do
    let ending := if rest.isEmpty then "" else "/"
    let names ← (if (Pattern.ofMarks name).isProper then namesIn start name
      else return [Mark.toText name])
    let paths ← names.mapM fun n => do
      let path := start ++ n ++ ending
      match ← entryKind (← resolve path) with
      | .ok _ => pathsBelow path rest
      | .error _ => return []
    return paths.flatten

/-- The paths that fit a field, or the field itself. -/
def matchFiles (field : List Mark) : Act (List String) := do
  if (← get).options.noFiles || !(Pattern.ofMarks field).isProper then
    return [Mark.toText field]
  match ← pathsBelow "" (splitSteps [] field) with
  | [] => return [Mark.toText field]
  | paths => return paths.mergeSort fun a b => a ≤ b

end Act

end LayeredConfig.Shell
