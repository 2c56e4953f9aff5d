import LayeredConfig.Document.Scalar
import LayeredConfig.Document.SyntaxError
import LayeredConfig.Text.Digit

/-!
# Reading within one line

A scalar is read from the start of a text together with whatever follows it. A key is a scalar
before a colon that ends the line or stands before a space.
-/

namespace LayeredConfig.Inline

/-! ## Double quotes -/

def hexDigits? (digits : List Char) : Option Nat :=
  digits.foldlM (fun total c => do return total * 16 + (← Text.hexValue? c)) 0

/-- A hexadecimal number of at least one digit, which may have a plus sign. -/
def hexNumber? : List Char → Option Nat
  | [] => none
  | ['+'] => none
  | '+' :: digits => hexDigits? digits
  | digits => hexDigits? digits

/-- The character of a code point; surrogates and numbers beyond the last code point have none. -/
def char? (code : Nat) : Option Char :=
  if code.isValidChar then some (Char.ofNat code) else none

/-- Reads a character from the next `count` characters, which must be `count` bytes long. -/
def hexEscape (count : Nat) (text : List Char) : Except SyntaxFault Char :=
  let digits := text.take count
  if (String.ofList digits).utf8ByteSize ≠ count then .error .truncatedEscape
  else match hexNumber? digits >>= char? with
    | some c => .ok c
    | none => .error (.invalidEscape digits)

/-- The escapes of one character. -/
def simpleEscape? : Char → Option Char
  | '\\' => some '\\'
  | '"' => some '"'
  | '/' => some '/'
  | ' ' => some ' '
  | 'n' => some '\n'
  | 't' => some '\t'
  | 'r' => some '\r'
  | '0' => some '\x00'
  | 'e' => some '\x1b'
  | _ => none

/-- The number of digits of a numeric escape. -/
def escapeWidth? : Char → Option Nat
  | 'x' => some 2
  | 'u' => some 4
  | 'U' => some 8
  | _ => none

/-- Reads up to the closing quote, from behind the opening one: the text and the rest. -/
def doubleQuoted : List Char → Except SyntaxFault (List Char × List Char)
  | [] => .error .unterminatedDoubleQuoted
  | '"' :: rest => .ok ([], rest)
  | ['\\'] => .error .unterminatedDoubleQuoted
  | '\\' :: kind :: rest =>
    match simpleEscape? kind, escapeWidth? kind with
    | some c, _ => do
      let (text, tail) ← doubleQuoted rest
      return (c :: text, tail)
    | none, some count => do
      let c ← hexEscape count rest
      let (text, tail) ← doubleQuoted (rest.drop count)
      return (c :: text, tail)
    | none, none => .error (.invalidEscape ['\\', kind])
  | c :: rest => do
    let (text, tail) ← doubleQuoted rest
    return (c :: text, tail)
termination_by text => text.length

/-! ## Single quotes and plain text -/

/-- Reads up to the closing quote, from behind the opening one: the text and the rest. -/
def singleQuoted : List Char → Except SyntaxFault (List Char × List Char)
  | [] => .error .unterminatedSingleQuoted
  | '\'' :: '\'' :: rest => do
    let (text, tail) ← singleQuoted rest
    return ('\'' :: text, tail)
  | '\'' :: rest => .ok ([], rest)
  | c :: rest => do
    let (text, tail) ← singleQuoted rest
    return (c :: text, tail)

/-- Splits before the first space that a number sign follows. -/
def splitComment : List Char → List Char × List Char
  | [] => ([], [])
  | ' ' :: '#' :: rest => ([], ' ' :: '#' :: rest)
  | c :: rest =>
    let (text, tail) := splitComment rest
    (c :: text, tail)

structure Scalar where
  text : List Char
  style : ScalarStyle
  rest : List Char
deriving DecidableEq, Repr

/-- The scalar at the start of a text. -/
def scalar (text : List Char) : Except SyntaxFault Scalar :=
  match text with
  | '"' :: inner => do
    let (value, rest) ← doubleQuoted inner
    return ⟨value, .doubleQuoted, rest⟩
  | '\'' :: inner => do
    let (value, rest) ← singleQuoted inner
    return ⟨value, .singleQuoted, rest⟩
  | _ =>
    match splitComment text with
    | (_, []) => .ok ⟨text, .plain, []⟩
    | (value, rest) => .ok ⟨Text.trimEnd value, .plain, rest⟩

/-- The comment behind a value; no other text may stand there. -/
def trailingComment (tail : List Char) : Except SyntaxFault (Option String) :=
  match Text.trimStart tail with
  | [] => .ok none
  | '#' :: rest => .ok (some (String.ofList ('#' :: rest)))
  | other => .error (.trailingText other)

/-! ## Keys -/

/-- Whether a colon before this text separates a key from its value. -/
def endsKey : List Char → Bool
  | [] => true
  | c :: _ => c == ' '

/-- Splits at the first separating colon, with what precedes it in reverse. A comment ends the
search. -/
def splitPlainKey (before : List Char) : List Char → Option (List Char × List Char)
  | [] => none
  | c :: rest =>
    if c = '#' && before.head? = some ' ' then none
    else if c = ':' && endsKey rest then
      match Text.trimEnd before.reverse with
      | [] => none
      | key => some (key, rest)
    else splitPlainKey (c :: before) rest

/-- Splits a line into its key and what follows the colon, if the line has a key. -/
def splitKey (text : List Char) : Except SyntaxFault (Option Scalar) :=
  let quoted := do
    let key ← scalar text
    match Text.trimStart key.rest with
    | ':' :: rest => return if endsKey rest then some { key with rest } else none
    | _ => return none
  match text with
  | '"' :: _ => quoted
  | '\'' :: _ => quoted
  | _ => return (splitPlainKey [] text).map fun (key, rest) => ⟨key, .plain, rest⟩

/-! ## Items -/

/-- What stands behind the dash of an item, without the spaces between. -/
def itemBody? (text : List Char) : Option (List Char) :=
  match text with
  | ['-'] => some []
  | '-' :: ' ' :: rest => some (rest.dropWhile (· == ' '))
  | _ => none

def isItem (text : List Char) : Bool :=
  (itemBody? text).isSome

theorem length_of_itemBody? {text body : List Char} (h : itemBody? text = some body) :
    body.length < text.length := by
  unfold itemBody? at h
  split at h
  · obtain rfl := Option.some.inj h
    simp
  · obtain rfl := Option.some.inj h
    rename_i rest
    have := (List.dropWhile_sublist (l := rest) (· == ' ')).length_le
    simp only [List.length_cons]
    omega
  · simp at h

end LayeredConfig.Inline
