import LayeredConfig.Decimal.Shortest
import LayeredConfig.Yaml.Value

/-!
# What a plain scalar means

A scalar without quotes is null, a truth value, an integer, a number with a fraction or else text.
Integers reach from the least signed to the greatest unsigned one of 64 bits; those of 128 bits are
refused, and beyond them a number is read as one with a fraction. Digits behind a leading zero are
text.
-/

namespace LayeredConfig.Yaml.Plain

def isDigit (c : Char) : Bool := '0' ≤ c && c ≤ '9'

def isSign (c : Char) : Bool := c == '+' || c == '-'

def isNull (text : List Char) : Bool :=
  [['~'], ['n', 'u', 'l', 'l'], ['N', 'u', 'l', 'l'], ['N', 'U', 'L', 'L']].contains text

def bool? (text : String) : Option Bool :=
  if ["true", "True", "TRUE"].contains text then some true
  else if ["false", "False", "FALSE"].contains text then some false
  else none

/-- Whether a number is written with a zero in front of its digits. -/
def hasLeadingZero (text : List Char) : Bool :=
  let digits := if text.head?.any isSign then text.tail else text
  1 < digits.length && digits.head? = some '0' && digits.all isDigit

/-! ## Integers -/

def digitOf? (base : Nat) (c : Char) : Option Nat :=
  let digit? :=
    if isDigit c then some (c.toNat - 48)
    else if 'a' ≤ c && c ≤ 'z' then some (c.toNat - 87)
    else if 'A' ≤ c && c ≤ 'Z' then some (c.toNat - 55)
    else none
  digit?.filter (· < base)

/-- The number that one or more digits stand for. -/
def natural? (base : Nat) (digits : List Char) : Option Nat :=
  if digits.isEmpty then none
  else digits.foldlM (fun n c => do return n * base + (← digitOf? base c)) 0

/-- Digits with the base that their first characters name, or in base ten. Digits with a leading
zero are no number there. -/
def magnitude? (whole text : List Char) : Option Nat :=
  let based := match text with
    | '0' :: 'x' :: rest => natural? 16 rest
    | '0' :: 'o' :: rest => natural? 8 rest
    | '0' :: 'b' :: rest => natural? 2 rest
    | _ => none
  match based with
  | some n => some n
  | none => if hasLeadingZero whole then none else natural? 10 text

/-- The integer that a text stands for, of whatever size. -/
def integer? (text : List Char) : Option Int :=
  match text with
  | '+' :: rest => (magnitude? text rest).map Int.ofNat
  | '-' :: rest => (magnitude? text rest).map fun n => -(n : Int)
  | _ => (magnitude? text text).map Int.ofNat

inductive IntegerSize where
  | word
  | double
  | larger
deriving DecidableEq

def integerSize (n : Int) : IntegerSize :=
  if -Int.pow 2 63 ≤ n ∧ n < Int.pow 2 64 then .word
  else if -Int.pow 2 127 ≤ n ∧ n < Int.pow 2 128 then .double
  else .larger

/-! ## Numbers with a fraction -/

/-- The exponent behind the digits of a number, if anything stands there. -/
def exponent? (text : List Char) : Option Int :=
  match text with
  | [] => some 0
  | c :: rest =>
    if c != 'e' && c != 'E' then none
    else match rest with
    | '+' :: digits => (natural? 10 digits).map Int.ofNat
    | '-' :: digits => (natural? 10 digits).map fun n => -(n : Int)
    | digits => (natural? 10 digits).map Int.ofNat

/-- Digits with a point or without one and an exponent or none. -/
def decimal? (text : List Char) : Option Decimal := do
  let whole := text.takeWhile isDigit
  let rest := text.dropWhile isDigit
  let (fraction, rest) := match rest with
    | '.' :: rest => (rest.takeWhile isDigit, rest.dropWhile isDigit)
    | rest => ([], rest)
  let coefficient ← natural? 10 (whole ++ fraction)
  let exponent ← exponent? rest
  return ⟨coefficient, exponent - fraction.length⟩

/-- The text of a finite number that its sign and digits stand for. -/
def finiteText? (text : List Char) : Option String :=
  match text with
  | '-' :: digits => do return "-" ++ (← (← decimal? digits).toBinary64?).text
  | '+' :: digits => do return (← (← decimal? digits).toBinary64?).text
  | digits => do return (← (← decimal? digits).toBinary64?).text

/-- The text of the number with a fraction that a text stands for. -/
def floatText? (text : String) : Option String :=
  if [".inf", ".Inf", ".INF", "+.inf", "+.Inf", "+.INF"].contains text then some ".inf"
  else if ["-.inf", "-.Inf", "-.INF"].contains text then some "-.inf"
  else if [".nan", ".NaN", ".NAN"].contains text then some ".nan"
  else finiteText? text.toList

/-! ## Values -/

def integerValue? (text : String) : Option (Except Unit Value) := do
  let n ← integer? text.toList
  match integerSize n with
  | .word => some (.ok (.number (.integer n)))
  | .double => some (.error ())
  | .larger => none

def floatValue? (text : String) : Option Value :=
  (floatText? text).map fun t => .number (.float t)

/-- The value of a plain scalar, or nothing for an integer that is refused. -/
def value? (text : String) : Option Value :=
  if text.isEmpty || isNull text.toList then some .null
  else match bool? text, integerValue? text with
  | some b, _ => some (.bool b)
  | none, some (.ok value) => some value
  | none, some (.error _) => none
  | none, none =>
    if hasLeadingZero text.toList then some (.string text)
    else some ((floatValue? text).getD (.string text))

/-- The value of a scalar under a tag of the core schema, if there is one. -/
def core? (tag text : String) : Option (Option Value) :=
  match tag with
  | "tag:yaml.org,2002:null" => some (if isNull text.toList then some .null else none)
  | "tag:yaml.org,2002:bool" => some ((bool? text).map .bool)
  | "tag:yaml.org,2002:int" => some (do (← integerValue? text).toOption)
  | "tag:yaml.org,2002:float" => some (floatValue? text)
  | _ => none

end LayeredConfig.Yaml.Plain
