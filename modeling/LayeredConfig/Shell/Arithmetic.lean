import LayeredConfig.Shell.Grammar

/-!
# Arithmetic

Expressions over whole numbers of 64 bits. A comparison is one when it holds and zero when it does
not. The second operand of a logical operator is left alone when the first one decides.
-/

namespace LayeredConfig.Shell

inductive Operation where
  | multiply | divide | remainder | add | subtract | shiftLeft | shiftRight
  | less | greater | lessEqual | greaterEqual | equal | unequal
  | bitAnd | bitXor | bitOr
deriving DecidableEq, Repr

inductive Expression where
  | number (value : Int)
  | named (name : String)
  | negative (operand : Expression)
  | complement (operand : Expression)
  | not (operand : Expression)
  | binary (operation : Operation) (left right : Expression)
  | both (left right : Expression)
  | either (left right : Expression)
  | choice (test yes no : Expression)
  /-- Sets a variable, to a value that is computed with its old one if there is an operation. -/
  | assign (name : String) (operation : Option Operation) (value : Expression)
deriving Repr, Inhabited

inductive ArithmeticError where
  | expectingPrimary
  | expectingEnd
  | expectingBracket
  | expectingColon
  | divisionByZero
deriving DecidableEq, Repr

def ArithmeticError.message : ArithmeticError → String
  | expectingPrimary => "expecting primary"
  | expectingEnd => "expecting EOF"
  | expectingBracket => "expecting ')'"
  | expectingColon => "expecting ':'"
  | divisionByZero => "division by zero"

/-! ## Numbers -/

/-- The number of 64 bits that a number wraps around to. -/
def wrap (n : Int) : Int := n.bmod (Nat.pow 2 64)

/-- The nearest number of 64 bits. -/
def clamp (n : Int) : Int := max (-Int.pow 2 63) (min (Int.pow 2 63 - 1) n)

/-- The value of a digit in the base that has enough of them. -/
def digitValue? (base : Nat) (c : Char) : Option Nat :=
  let value :=
    if c.isDigit then c.toNat - '0'.toNat
    else if c.isLower then c.toNat - 'a'.toNat + 10
    else if c.isUpper then c.toNat - 'A'.toNat + 10
    else base
  if value < base then some value else none

def readDigits (base : Nat) (text : List Char) : Nat :=
  text.foldl (fun n c => base * n + (digitValue? base c).getD 0) 0

/-- The number at the start of a text, with its length. A zero in front says that it is octal. -/
def numberAt (text : List Char) : Int × Nat :=
  let digitsOf (base : Nat) (text : List Char) := text.takeWhile fun c => (digitValue? base c).isSome
  let hexadecimal := digitsOf 16 (text.drop 2)
  let start := String.ofList (text.take 2)
  if (start == "0x" || start == "0X") && !hexadecimal.isEmpty then
    (clamp (readDigits 16 hexadecimal), hexadecimal.length + 2)
  else
    let base := if text.head? == some '0' then 8 else 10
    let digits := digitsOf base text
    (clamp (readDigits base digits), digits.length)

/-- The number that a whole text is, with a sign and blanks around it. -/
def number? (text : String) : Option Int :=
  let text := text.toList.dropWhile Char.isWhitespace
  let negative := text.head? == some '-'
  let digits := if negative || text.head? == some '+' then text.drop 1 else text
  let (n, length) := numberAt digits
  if length == 0 || !(digits.drop length).all Char.isWhitespace then none
  else some (clamp (if negative then -n else n))

/-- The bits of a number, the highest of which is the sign. -/
def bits (n : Int) : Nat := (n.emod (Int.pow 2 64)).toNat

/-- The value of an operation, or nothing for a division by zero. -/
def Operation.value? (operation : Operation) (a b : Int) : Option Int :=
  let truth (p : Bool) : Option Int := some (if p then 1 else 0)
  match operation with
  | multiply => some (wrap (a * b))
  | divide => if b = 0 then none else some (wrap (a.tdiv b))
  | remainder => if b = 0 then none else some (a.tmod b)
  | add => some (wrap (a + b))
  | subtract => some (wrap (a - b))
  | shiftLeft => some (wrap (a * Int.pow 2 (bits b % 64)))
  | shiftRight => some (a.fdiv (Int.pow 2 (bits b % 64)))
  | less => truth (a < b)
  | greater => truth (b < a)
  | lessEqual => truth (a ≤ b)
  | greaterEqual => truth (b ≤ a)
  | equal => truth (a == b)
  | unequal => truth (a != b)
  | bitAnd => some (wrap (bits a &&& bits b : Nat))
  | bitXor => some (wrap (bits a ^^^ bits b : Nat))
  | bitOr => some (wrap (bits a ||| bits b : Nat))

/-! ## Reading -/

namespace Expression

abbrev Reading := StateT (List Char) (Except ArithmeticError)

def operators : List (String × Option Operation) :=
  [("<<=", none), (">>=", none), ("<=", some .lessEqual), (">=", some .greaterEqual),
   ("==", some .equal), ("!=", some .unequal), ("<<", some .shiftLeft), (">>", some .shiftRight),
   ("&&", none), ("||", none), ("*=", none), ("/=", none), ("%=", none), ("+=", none),
   ("-=", none), ("&=", none), ("^=", none), ("|=", none), ("*", some .multiply),
   ("/", some .divide), ("%", some .remainder), ("+", some .add), ("-", some .subtract),
   ("<", some .less), (">", some .greater), ("&", some .bitAnd), ("^", some .bitXor),
   ("|", some .bitOr)]

/-- Operators that bind less tightly have a smaller rank. -/
def rank : Operation → Nat
  | .bitOr => 1
  | .bitXor => 2
  | .bitAnd => 3
  | .equal | .unequal => 4
  | .less | .greater | .lessEqual | .greaterEqual => 5
  | .shiftLeft | .shiftRight => 6
  | .add | .subtract => 7
  | .multiply | .divide | .remainder => 8

def assignments : List (String × Option Operation) :=
  [("<<=", some .shiftLeft), (">>=", some .shiftRight), ("*=", some .multiply),
   ("/=", some .divide), ("%=", some .remainder), ("+=", some .add), ("-=", some .subtract),
   ("&=", some .bitAnd), ("^=", some .bitXor), ("|=", some .bitOr)]

/-- The text that is left behind blanks. -/
def look : Reading (List Char) := do
  modify (·.dropWhile fun c => isBlank c || c == '\n')
  get

/-- Goes on behind a sign if it comes next. -/
def accept (sign : String) : Reading Bool := do
  let text ← look
  if sign.toList.isPrefixOf text then
    set (text.drop sign.length)
    return true
  return false

/-- The operation that comes next if it binds tightly enough. -/
def nextOperation? (least : Nat) : Reading (Option Operation) := do
  match Reading.startOf? operators (← look) with
  | some (length, some operation) =>
    if rank operation < least then return none
    modify (·.drop length)
    return some operation
  | _ => return none

/-- The way of assigning that comes next. -/
def nextAssignment? : Reading (Option (Option Operation)) := do
  let text ← look
  match Reading.startOf? assignments text with
  | some (length, operation) =>
    set (text.drop length)
    return some operation
  | none =>
    match text with
    | '=' :: rest =>
      if rest.head? == some '=' then return none
      set rest
      return some none
    | _ => return none

mutual

def readAssignment : Nat → Reading Expression
  | 0 => throw .expectingPrimary
  | fuel + 1 => do
    let before ← look
    let name := String.ofList (before.takeWhile isNameChar)
    if isName name then
      set (before.drop name.length)
      match ← nextAssignment? with
      | some operation => return .assign name operation (← readAssignment fuel)
      | none => set before
    readChoice fuel

def readChoice : Nat → Reading Expression
  | 0 => throw .expectingPrimary
  | fuel + 1 => do
    let test ← readEither fuel
    if !(← accept "?") then return test
    let yes ← readAssignment fuel
    if !(← accept ":") then throw .expectingColon
    return .choice test yes (← readChoice fuel)

def readEither : Nat → Reading Expression
  | 0 => throw .expectingPrimary
  | fuel + 1 => do
    let left ← readBoth fuel
    if ← accept "||" then return .either left (← readEither fuel)
    return left

def readBoth : Nat → Reading Expression
  | 0 => throw .expectingPrimary
  | fuel + 1 => do
    let left ← readBinary fuel 1
    if ← accept "&&" then return .both left (← readBoth fuel)
    return left

/-- Operators of at least some rank with their operands. -/
def readBinary : Nat → Nat → Reading Expression
  | 0, _ => throw .expectingPrimary
  | fuel + 1, least => do readOperands fuel least (← readUnary fuel)

def readOperands : Nat → Nat → Expression → Reading Expression
  | 0, _, _ => throw .expectingPrimary
  | fuel + 1, least, left => do
    match ← nextOperation? least with
    | none => return left
    | some operation =>
      let right ← readBinary fuel (rank operation + 1)
      readOperands fuel least (.binary operation left right)

def readUnary : Nat → Reading Expression
  | 0 => throw .expectingPrimary
  | fuel + 1 => do
    match ← look with
    | '-' :: rest =>
      set rest
      return .negative (← readUnary fuel)
    | '+' :: rest =>
      set rest
      readUnary fuel
    | '~' :: rest =>
      set rest
      return .complement (← readUnary fuel)
    | '!' :: rest =>
      set rest
      return .not (← readUnary fuel)
    | '(' :: rest =>
      set rest
      let inside ← readAssignment fuel
      if !(← accept ")") then throw .expectingBracket
      return inside
    | [] => throw .expectingPrimary
    | c :: rest =>
      if isNameStart c then
        let name := (c :: rest).takeWhile isNameChar
        set ((c :: rest).drop name.length)
        return .named (String.ofList name)
      else if c.isDigit then
        let (n, length) := numberAt (c :: rest)
        set ((c :: rest).drop length)
        return .number n
      else throw .expectingPrimary

end

def parse (text : String) : Except ArithmeticError Expression := do
  let (e, rest) ← (readAssignment (20 * text.length + 20)).run text.toList
  if rest.all fun c => isBlank c || c == '\n' then return e else throw .expectingEnd

/-! ## Evaluation -/

/-- The value of an expression, where variables are read and written in a monad. -/
def evaluate {m : Type → Type} [Monad m] (lookUp : String → m Int) (store : String → Int → m Unit)
    (fail : ArithmeticError → m Int) : Expression → m Int
  | number value => pure value
  | named name => lookUp name
  | negative e => do return wrap (-(← e.evaluate lookUp store fail))
  | complement e => do return -(← e.evaluate lookUp store fail) - 1
  | not e => do return if (← e.evaluate lookUp store fail) = 0 then 1 else 0
  | binary operation left right => do
    let a ← left.evaluate lookUp store fail
    let b ← right.evaluate lookUp store fail
    match operation.value? a b with
    | some value => return value
    | none => fail .divisionByZero
  | both left right => do
    if (← left.evaluate lookUp store fail) = 0 then return 0
    return if (← right.evaluate lookUp store fail) = 0 then 0 else 1
  | either left right => do
    if (← left.evaluate lookUp store fail) ≠ 0 then return 1
    return if (← right.evaluate lookUp store fail) = 0 then 0 else 1
  | choice test yes no => do
    if (← test.evaluate lookUp store fail) = 0 then no.evaluate lookUp store fail
    else yes.evaluate lookUp store fail
  | assign name operation value => do
    let b ← value.evaluate lookUp store fail
    let result ← match operation with
      | none => pure b
      | some operation => do
        match operation.value? (← lookUp name) b with
        | some value => pure value
        | none => fail .divisionByZero
    store name result
    return result

end Expression

end LayeredConfig.Shell
