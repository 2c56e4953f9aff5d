import LayeredConfig.Text.Blank

/-!
# Words of an expansion

A text is split into words as a shell does it, without any expansion. White space separates
words; single quotes are literal; between double quotes a backslash works before a backslash, a
double quote, a dollar sign, a grave accent and a line end; elsewhere it makes the next character
literal and joins lines; a number sign at the start of a word comments out the rest of the line.

The splitter reads one character at a time. Between two characters it is in one of the modes
below, and only at the end of the text can it fail.
-/

namespace LayeredConfig

inductive WordsError where
  | unterminatedQuote (quote : Char)
  | trailingEscape
deriving DecidableEq, Repr

def WordsError.message : WordsError → String
  | unterminatedQuote quote => "unterminated " ++ String.singleton quote ++ " quote"
  | trailingEscape => "trailing backslash"

namespace Words

/-- Where the splitter stands, with what it has read of the current word. -/
inductive Mode where
  | gap
  | comment
  | bare (word : List Char)
  /-- Behind a backslash outside quotes. -/
  | escaped (word : List Char)
  | single (word : List Char)
  | double (word : List Char)
  /-- Behind a backslash between double quotes. -/
  | doubleEscaped (word : List Char)
deriving DecidableEq, Repr

/-- One character of a word outside quotes that is not white space. -/
def bareStep (word : List Char) (c : Char) : Mode :=
  match c with
  | '\'' => .single word
  | '"' => .double word
  | '\\' => .escaped word
  | c => .bare (word ++ [c])

/-- Whether a backslash between double quotes makes this character literal. -/
def isEscapable (c : Char) : Bool :=
  c == '\\' || c == '"' || c == '$' || c == '\x60'

/-- The word that a character ends, if it ends one, and the mode behind the character. -/
def step (mode : Mode) (c : Char) : Option (List Char) × Mode :=
  match mode with
  | .gap =>
    if Text.isBlank c then (none, .gap) else if c = '#' then (none, .comment)
    else (none, bareStep [] c)
  | .comment => (none, if c = '\n' then .gap else .comment)
  | .bare word => if Text.isBlank c then (some word, .gap) else (none, bareStep word c)
  | .escaped word => (none, .bare (if c = '\n' then word else word ++ [c]))
  | .single word => (none, if c = '\'' then .bare word else .single (word ++ [c]))
  | .double word =>
    (none, if c = '"' then .bare word else if c = '\\' then .doubleEscaped word
      else .double (word ++ [c]))
  | .doubleEscaped word =>
    (none, .double (if isEscapable c then word ++ [c] else if c = '\n' then word
      else word ++ ['\\', c]))

/-- The word that the end of the text ends. -/
def finish : Mode → Except WordsError (List (List Char))
  | .gap => .ok []
  | .comment => .ok []
  | .bare word => .ok [word]
  | .escaped _ => .error .trailingEscape
  | .single _ => .error (.unterminatedQuote '\'')
  | .double _ => .error (.unterminatedQuote '"')
  | .doubleEscaped _ => .error (.unterminatedQuote '"')

/-- The words that end in a text that is read from a mode on. -/
def scan (mode : Mode) : List Char → Except WordsError (List (List Char))
  | [] => finish mode
  | c :: rest => do
    let (word, mode) := step mode c
    return word.toList ++ (← scan mode rest)

def split (text : String) : Except WordsError (List String) := do
  return (← scan .gap text.toList).map String.ofList

end Words

end LayeredConfig
