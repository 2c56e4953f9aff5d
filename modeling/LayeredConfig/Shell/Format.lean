import LayeredConfig.Shell.Arithmetic

/-!
# Formatted output

Texts with escape sequences, and formats with directives that take one argument after the other.
What comes out are octets, since an escape sequence can stand for any octet.
-/

namespace LayeredConfig.Shell.Format

def octetsOf (c : Char) : List UInt8 :=
  (String.singleton c).toUTF8.data.toList

def octetsOfText (text : String) : List UInt8 :=
  text.toUTF8.data.toList

/-! ## Escape sequences -/

def isOctal (c : Char) : Bool := '0' ≤ c && c ≤ '7'

/-- The octet of the escape sequence behind a backslash, and how much of the text it takes. A
backslash in front of anything else stands for itself. -/
def escapeAt (text : List Char) : UInt8 × Nat :=
  let digits := (text.take 3).takeWhile isOctal
  if digits.isEmpty then
    let codes : List (Char × UInt8) :=
      [('\\', 92), ('a', 7), ('b', 8), ('e', 27), ('f', 12), ('n', 10), ('r', 13), ('t', 9), ('v', 11)]
    match text.head?.bind fun c => codes.lookup c with
    | some code => (code, 1)
    | none => (92, 0)
  else (UInt8.ofNat (readDigits 8 digits), digits.length)

/-- The octets of a text, and whether it asks to stop. The first `skip` characters belong to an
escape sequence that is read already. -/
def unescape (skip : Nat) : List Char → List UInt8 × Bool
  | [] => ([], false)
  | c :: rest =>
    match skip with
    | skip + 1 => unescape skip rest
    | 0 =>
      if c != '\\' then
        let (octets, stops) := unescape 0 rest
        (octetsOf c ++ octets, stops)
      else if rest.head? == some 'c' then ([], true)
      else
        let lead := if rest.head? == some '0' && (rest.drop 1).head?.any isOctal then 1 else 0
        let (octet, length) := escapeAt (rest.drop lead)
        let (octets, stops) := unescape (lead + length) rest
        (octet :: octets, stops)

/-- Arguments with blanks between them and a line end, unless the first one asks for none. -/
def echo (arguments : List String) : ByteArray :=
  match arguments with
  | "-n" :: rest => ⟨(go [] rest).toArray⟩
  | all => ⟨(go [10] all).toArray⟩
where
  go (ending : List UInt8) : List String → List UInt8
    | [] => ending
    | [text] =>
      let (octets, stops) := unescape 0 text.toList
      if stops then octets else octets ++ ending
    | text :: rest =>
      let (octets, stops) := unescape 0 text.toList
      if stops then octets else octets ++ 32 :: go ending rest

/-! ## Directives -/

/-- How the value of a directive is written. -/
structure Layout where
  left : Bool := false
  zeros : Bool := false
  plus : Bool := false
  blank : Bool := false
  marked : Bool := false
  width : Nat := 0
  precision : Option Nat := none
deriving DecidableEq, Repr

def padded (layout : Layout) (octets : List UInt8) : List UInt8 :=
  let filling := List.replicate (layout.width - octets.length) 32
  if layout.left then octets ++ filling else filling ++ octets

def writeText (layout : Layout) (octets : List UInt8) : List UInt8 :=
  padded layout (match layout.precision with
    | some n => octets.take n
    | none => octets)

/-- Digits behind a sign or a mark of their base. -/
def writeDigits (layout : Layout) (lead digits : String) : List UInt8 :=
  let zeros := match layout.precision with
    | some n => n - digits.length
    | none =>
      if layout.zeros && !layout.left then layout.width - (lead.length + digits.length) else 0
  let digits := if layout.precision == some 0 && digits == "0" then "" else digits
  padded layout (octetsOfText (lead ++ String.ofList (List.replicate zeros '0') ++ digits))

def writeSigned (layout : Layout) (n : Int) : List UInt8 :=
  let sign :=
    if n < 0 then "-" else if layout.plus then "+" else if layout.blank then " " else ""
  writeDigits layout sign (toString n.natAbs)

def writeInBase (layout : Layout) (base : Nat) (upper : Bool) (n : Int) : List UInt8 :=
  let digits := String.ofList (Nat.toDigits base (bits n))
  let digits := if upper then digits.toUpper else digits
  let lead :=
    if !layout.marked || n == 0 then ""
    else if base == 16 then (if upper then "0X" else "0x")
    else if base == 8 then "0" else ""
  writeDigits layout lead digits

/-- The number that an argument stands for, and what is wrong with it. -/
def argumentNumber (signed : Bool) (argument : String) : Int × Option String :=
  match argument.toList with
  | [] => (0, none)
  | '"' :: rest => (codeOf rest, none)
  | '\'' :: rest => (codeOf rest, none)
  | text =>
    let text := text.dropWhile Char.isWhitespace
    let negative := text.head? == some '-'
    let digits := if negative || text.head? == some '+' then text.drop 1 else text
    let (magnitude, length) := magnitudeAt digits
    let n := if negative then -magnitude else magnitude
    let (low, high) : Int × Int :=
      if signed then (-Int.pow 2 63, Int.pow 2 63 - 1) else (-Int.pow 2 64 + 1, Int.pow 2 64 - 1)
    let problem :=
      if length == 0 then some ": expected numeric value"
      else if length < digits.length then some ": not completely converted"
      else if n < low || high < n then some ": Numerical result out of range"
      else none
    (max low (min high n), problem.map (argument ++ ·))
where
  codeOf (rest : List Char) : Int :=
    match rest.flatMap octetsOf with
    | [] => 0
    | octet :: _ => octet.toNat
  magnitudeAt (digits : List Char) : Int × Nat :=
    let start := String.ofList (digits.take 2)
    let hexadecimal := (digits.drop 2).takeWhile fun c => (digitValue? 16 c).isSome
    if (start == "0x" || start == "0X") && !hexadecimal.isEmpty then
      (readDigits 16 hexadecimal, hexadecimal.length + 2)
    else
      let base := if digits.head? == some '0' then 8 else 10
      let digits := digits.takeWhile fun c => (digitValue? base c).isSome
      (readDigits base digits, digits.length)

/-- What comes of a format so far. -/
structure Progress where
  octets : List UInt8 := []
  arguments : List String
  complaints : List String := []
  /-- Whether an argument asked to stop. -/
  stops : Bool := false

/-- Why a format cannot be carried out. -/
inductive Failure where
  | missingLetter
  | unknownLetter (directive : String)
deriving DecidableEq, Repr

def Failure.message : Failure → String
  | missingLetter => "missing format character"
  | unknownLetter directive => directive ++ ": invalid directive"

def Progress.take (p : Progress) : String × Progress :=
  match p.arguments with
  | [] => ("", p)
  | argument :: rest => (argument, { p with arguments := rest })

def Progress.takeNumber (p : Progress) (signed : Bool) : Int × Progress :=
  let (argument, p) := p.take
  let (n, problem) := argumentNumber signed argument
  (n, { p with complaints := p.complaints ++ problem.toList })

def Progress.put (p : Progress) (octets : List UInt8) : Progress :=
  { p with octets := p.octets ++ octets }

/-- Writes one argument as a letter asks for. -/
def writeArgument (p : Progress) (layout : Layout) : Char → Option Progress
  | 's' =>
    let (text, p) := p.take
    some (p.put (writeText layout (octetsOfText text)))
  | 'b' =>
    let (text, p) := p.take
    let (octets, stops) := unescape 0 text.toList
    some { p.put (writeText layout octets) with stops }
  | 'c' =>
    let (text, p) := p.take
    let octets := octetsOfText text
    some (p.put (padded layout (if octets.isEmpty then [0] else octets.take 1)))
  | 'd' | 'i' =>
    let (n, p) := p.takeNumber true
    some (p.put (writeSigned layout n))
  | 'u' =>
    let (n, p) := p.takeNumber false
    some (p.put (writeInBase layout 10 false n))
  | 'o' =>
    let (n, p) := p.takeNumber false
    some (p.put (writeInBase layout 8 false n))
  | 'x' =>
    let (n, p) := p.takeNumber false
    some (p.put (writeInBase layout 16 false n))
  | 'X' =>
    let (n, p) := p.takeNumber false
    some (p.put (writeInBase layout 16 true n))
  | _ => none

/-- A number of a directive, which may be an argument. -/
def sizeAt (p : Progress) (text : List Char) : Int × Nat × Progress :=
  match text with
  | '*' :: _ =>
    let (n, p) := p.takeNumber true
    (n, 1, p)
  | _ =>
    let digits := text.takeWhile Char.isDigit
    (readDigits 10 digits, digits.length, p)

/-- The directive behind a percent sign, with its length. -/
def directiveAt (p : Progress) (text : List Char) : Except Failure (Progress × Nat) :=
  let flags := text.takeWhile fun c => "#-+ 0".toList.contains c
  let (width, widthLength, p) := sizeAt p (text.drop flags.length)
  let length := flags.length + widthLength
  let rest := text.drop length
  let (precision, precisionLength, p) : Option Nat × Nat × Progress :=
    if rest.head? == some '.' then
      let (n, length, p) := sizeAt p (rest.drop 1)
      (if n < 0 then none else some n.toNat, length + 1, p)
    else (none, 0, p)
  let length := length + precisionLength
  match text.drop length with
  | [] => .error .missingLetter
  | letter :: _ =>
    let layout : Layout :=
      { left := flags.contains '-' || width < 0, zeros := flags.contains '0',
        plus := flags.contains '+', blank := flags.contains ' ', marked := flags.contains '#',
        width := width.natAbs, precision }
    match writeArgument p layout letter with
    | some p => .ok (p, length + 1)
    | none => .error (.unknownLetter (String.ofList ('%' :: text.take (length + 1))))

/-- Carries a format out once. The first `skip` characters belong to what is done already. -/
def pass (p : Progress) (skip : Nat) : List Char → Progress × Option Failure
  | [] => (p, none)
  | c :: rest =>
    if p.stops then (p, none)
    else match skip with
    | skip + 1 => pass p skip rest
    | 0 =>
      if c == '\\' then
        let (octet, length) := escapeAt rest
        pass (p.put [octet]) length rest
      else if c == '%' then
        if rest.head? == some '%' then pass (p.put [37]) 1 rest
        else match directiveAt p rest with
        | .ok (p, length) => pass p length rest
        | .error e => (p, some e)
      else pass (p.put (octetsOf c)) 0 rest

/-- Carries a format out as long as there are arguments left that it uses. -/
def passes : Nat → List Char → Progress → Progress × Option Failure
  | 0, _, p => (p, none)
  | count + 1, format, p =>
    let (q, failure) := pass p 0 format
    if failure.isSome || q.stops || q.arguments.isEmpty
        || q.arguments.length == p.arguments.length then (q, failure)
    else passes count format q

/-- The octets, the complaints about arguments, and what made the format fail. -/
def printf (format : String) (arguments : List String) : Progress × Option Failure :=
  passes (arguments.length + 1) format.toList { arguments }

end LayeredConfig.Shell.Format
