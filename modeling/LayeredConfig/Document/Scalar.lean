import LayeredConfig.Document.Tree
import LayeredConfig.Text.Blank
import LayeredConfig.Text.Control

/-!
# Writing scalars

A scalar is written plain where a reader would get the same text back, between single quotes with
every inner quote doubled, or between double quotes with escapes. A text that its style cannot
hold is written between double quotes, which hold every text.
-/

namespace LayeredConfig.Scalar

/-- The characters that mean something else at the start of a value. -/
def indicators : List Char :=
  ['-', '?', ':', ',', '[', ']', '\x7b', '\x7d', '#', '&', '*', '!', '|', '>', '\'', '"', '%', '@',
   '\x60']

/-- Whether one character directly follows another somewhere in a text. -/
def hasPair (first second : Char) : List Char → Bool
  | a :: b :: rest => (a == first && b == second) || hasPair first second (b :: rest)
  | _ => false

/-- Whether a text reads back as itself without quotes. -/
def isPlainSafe (text : List Char) : Bool :=
  match text with
  | [] => false
  | first :: _ =>
    Text.trim text == text && !indicators.contains first && !hasPair ':' ' ' text &&
      !hasPair ' ' '#' text && text.getLast? != some ':' && !text.any Text.isControl

/-! ## Quoting -/

def upperHexDigit (n : Nat) : Char :=
  if n < 10 then Char.ofNat (48 + n) else Char.ofNat (55 + n)

/-- Four hexadecimal digits of a number below 65536. -/
def hex4 (n : Nat) : List Char :=
  [upperHexDigit (n / 4096 % 16), upperHexDigit (n / 256 % 16), upperHexDigit (n / 16 % 16),
   upperHexDigit (n % 16)]

def escape (c : Char) : List Char :=
  match c with
  | '\\' => ['\\', '\\']
  | '"' => ['\\', '"']
  | '\n' => ['\\', 'n']
  | '\t' => ['\\', 't']
  | '\r' => ['\\', 'r']
  | '\x00' => ['\\', '0']
  | c => if Text.isControl c then '\\' :: 'u' :: hex4 c.toNat else [c]

def doubleQuote (text : List Char) : List Char :=
  '"' :: text.flatMap escape ++ ['"']

def singleQuote (text : List Char) : List Char :=
  '\'' :: text.flatMap (fun c => if c = '\'' then ['\'', '\''] else [c]) ++ ['\'']

def render (text : List Char) (style : ScalarStyle) : List Char :=
  match style with
  | .plain => if isPlainSafe text then text else doubleQuote text
  | .singleQuoted => if text.any Text.isControl then doubleQuote text else singleQuote text
  | .doubleQuoted => doubleQuote text

/-- The style for a new text: the current one unless it cannot represent the text. -/
def styleFor (text : List Char) (current : ScalarStyle) : ScalarStyle :=
  match current with
  | .plain => if text.isEmpty || isPlainSafe text then .plain else .doubleQuoted
  | .singleQuoted => if text.any Text.isControl then .doubleQuoted else .singleQuoted
  | .doubleQuoted => .doubleQuoted

end LayeredConfig.Scalar
