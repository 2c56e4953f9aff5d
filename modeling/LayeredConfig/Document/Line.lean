import LayeredConfig.Text.Blank
import LayeredConfig.Text.Lines

/-!
# Lines of a settings file

A line is a comment (an empty one is a blank line) or content behind an indentation of spaces.
The indentation is the only thing that says how lines nest.
-/

namespace LayeredConfig

inductive Line where
  | comment (indent : Nat) (text : List Char)
  | content (indent : Nat) (text : List Char)
deriving DecidableEq, Repr

namespace Line

/-- The text of a line without its line feed; a blank line has no indentation. -/
def render : Line → List Char
  | comment _ [] => []
  | comment indent text => List.replicate indent ' ' ++ text
  | content indent text => List.replicate indent ' ' ++ text

def renderAll (lines : List Line) : List Char :=
  Text.unlines (lines.map render)

/-- What one line of a text holds. -/
inductive Reading where
  | line (line : Line)
  /-- A document marker, which separates nothing here and is skipped. -/
  | marker
  | tabIndentation
deriving DecidableEq

/-- White space at the end of a line is not part of it. -/
def read (raw : List Char) : Reading :=
  let body := raw.dropWhile (· == ' ')
  let indent := raw.length - body.length
  let text := Text.trimEnd body
  match text with
  | [] => .line (comment 0 [])
  | '#' :: _ => .line (comment indent text)
  | _ =>
    if body.head? = some '\t' then .tabIndentation
    else if indent = 0 && (text = ['-', '-', '-'] || text = ['.', '.', '.']) then .marker
    else .line (content indent text)

end Line

end LayeredConfig
