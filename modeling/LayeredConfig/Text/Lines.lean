/-!
# Lines of a text

A line ends at a line feed; a carriage return directly before it belongs to the line end. A text
that ends with a line feed has no empty last line.
-/

namespace LayeredConfig.Text

/-- Drops one carriage return at the end. -/
def dropReturn (line : List Char) : List Char :=
  match line.reverse with
  | '\r' :: rest => rest.reverse
  | _ => line

/-- Splits at line feeds, with the line that is being read in reverse. -/
def splitLines (current : List Char) : List Char → List (List Char)
  | [] => if current.isEmpty then [] else [current.reverse]
  | '\n' :: rest => dropReturn current.reverse :: splitLines [] rest
  | c :: rest => splitLines (c :: current) rest

def lines (text : List Char) : List (List Char) :=
  splitLines [] text

/-- Every line followed by a line feed. -/
def unlines (lines : List (List Char)) : List Char :=
  lines.flatMap (· ++ ['\n'])

end LayeredConfig.Text
