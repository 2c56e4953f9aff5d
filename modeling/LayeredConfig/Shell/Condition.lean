import LayeredConfig.Shell.Session

/-!
# Conditions

Arguments that say what is to be true of texts, numbers and files. A word that could be an operator
is an operand when what stands around it leaves no other way.
-/

namespace LayeredConfig.Shell

inductive Comparison where
  | equal | unequal | less | greater | lessEqual | greaterEqual
deriving DecidableEq, Repr

def Comparison.holds {α : Type} [BEq α] [LT α] [DecidableLT α] (c : Comparison) (a b : α) : Bool :=
  match c with
  | equal => a == b
  | unequal => a != b
  | less => a < b
  | greater => b < a
  | lessEqual => !(b < a)
  | greaterEqual => !(a < b)

inductive Condition where
  /-- There is nothing to check. -/
  | missing
  | notEmpty (text : String)
  | empty (text : String)
  | terminal (descriptor : String)
  | file (letter : Char) (path : String)
  | texts (comparison : Comparison) (left right : String)
  | numbers (comparison : Comparison) (left right : String)
  | sameFile (left right : String)
  | negated (condition : Condition)
  | both (left right : Condition)
  | either (left right : Condition)
deriving Inhabited

namespace Condition

def textOperators : List (String × Comparison) :=
  [("=", .equal), ("!=", .unequal), ("<", .less), (">", .greater)]

def numberOperators : List (String × Comparison) :=
  [("-eq", .equal), ("-ne", .unequal), ("-lt", .less), ("-gt", .greater), ("-le", .lessEqual),
   ("-ge", .greaterEqual)]

def isBinary (word : String) : Bool :=
  (textOperators.lookup word).isSome || (numberOperators.lookup word).isSome
    || word == "-ef" || word == "-nt" || word == "-ot"

def unaryLetters : List Char := "bcdefghkLnprstuwxzOGS".toList

def unaryLetter? (word : String) : Option Char :=
  match word.toList with
  | ['-', letter] => if unaryLetters.contains letter then some letter else none
  | _ => none

def unary (letter : Char) (operand : String) : Condition :=
  match letter with
  | 'n' => notEmpty operand
  | 'z' => empty operand
  | 't' => terminal operand
  | letter => file letter operand

def binary (left operator right : String) : Condition :=
  match textOperators.lookup operator, numberOperators.lookup operator with
  | some c, _ => texts c left right
  | none, some c => numbers c left right
  | none, none => if operator == "-ef" then sameFile left right else missing

/-- Whether a word that looks like an operator with one operand is an operand itself. -/
def isOperand : List String → Bool
  | [] => true
  | [_] => false
  | next :: _ => isBinary next

inductive Lexeme where
  | endOfText
  | operand
  | unary (letter : Char)
  | other (word : String)
deriving DecidableEq, Repr

/-- What the first word is, given the words behind it. -/
def lexeme : List String → Lexeme
  | [] => .endOfText
  | word :: rest =>
    match unaryLetter? word with
    | some letter => if isOperand rest then .operand else .unary letter
    | none =>
      if word == "(" then if rest.isEmpty then .operand else .other word
      else if isBinary word || ["!", ")", "-a", "-o"].contains word then .other word
      else .operand

/-- A condition with the words from the last one that belongs to it on. -/
abbrev Parsed := Except String (Condition × List String)

mutual

/-- Reads at the first of some words, which is given with its meaning. -/
def readEither : Nat → Lexeme → List String → Parsed
  | 0, _, _ => .error "too deep"
  | fuel + 1, first, words => do
    let (left, words) ← readBoth fuel first words
    if lexeme (words.drop 1) = .other "-o" then
      let words := words.drop 2
      let (right, words) ← readEither fuel (lexeme words) words
      return (either left right, words)
    return (left, words)

def readBoth : Nat → Lexeme → List String → Parsed
  | 0, _, _ => .error "too deep"
  | fuel + 1, first, words => do
    let (left, words) ← readNegated fuel first words
    if lexeme (words.drop 1) = .other "-a" then
      let words := words.drop 2
      let (right, words) ← readBoth fuel (lexeme words) words
      return (both left right, words)
    return (left, words)

def readNegated : Nat → Lexeme → List String → Parsed
  | 0, _, _ => .error "too deep"
  | fuel + 1, first, words => do
    if first = .other "!" then
      let next := lexeme (words.drop 1)
      let words := if next = .endOfText then words else words.drop 1
      let (condition, words) ← readNegated fuel next words
      return (negated condition, words)
    readPrimary fuel first words

def readPrimary : Nat → Lexeme → List String → Parsed
  | 0, _, _ => .error "too deep"
  | fuel + 1, first, words => do
    match first, words with
    | .endOfText, words => return (missing, words)
    | .other "(", words =>
      let inside := words.drop 1
      if lexeme inside = .other ")" then return (missing, inside)
      let (condition, words) ← readEither fuel (lexeme inside) inside
      if lexeme (words.drop 1) = .other ")" then return (condition, words.drop 1)
      .error "closing paren expected"
    | .unary letter, word :: rest =>
      match rest with
      | [] => .error (word ++ ": argument expected")
      | operand :: _ => return (unary letter operand, rest)
    | _, word :: rest =>
      match rest with
      | operator :: operands =>
        if isBinary operator then
          match operands with
          | [] => .error (operator ++ ": argument expected")
          | right :: _ => return (binary word operator right, operands)
        else return (notEmpty word, words)
      | [] => return (notEmpty word, words)
    | _, [] => return (missing, [])

end

/-- The condition at the start of arguments, with the words from the last one that belongs to it
on. -/
def parse (arguments : List String) : Parsed :=
  let first := match arguments with
    | ["(", _, ")"] => lexeme arguments
    | [_, operator, _] => if isBinary operator then .operand else firstOf arguments
    | [_, _, _, _] => firstOf arguments
    | _ => lexeme arguments
  readEither (8 * arguments.length + 8) first arguments
where
  firstOf (arguments : List String) : Lexeme :=
    if arguments.head? == some "!" then .other "!" else lexeme arguments

/-! ## Evaluation -/

/-- A whole number with blanks around it. -/
def number? (text : String) : Option Int :=
  let text := text.toList.dropWhile Char.isWhitespace
  let text := (text.reverse.dropWhile Char.isWhitespace).reverse
  let negative := text.head? == some '-'
  let digits := if negative || text.head? == some '+' then text.drop 1 else text
  if digits.isEmpty || !digits.all Char.isDigit then none
  else
    let n : Int := digits.foldl (fun n c => 10 * n + (c.toNat - '0'.toNat : Nat)) 0
    let n := if negative then -n else n
    if n < -Int.pow 2 63 || Int.pow 2 63 - 1 < n then none else some n

/-- Whether a file is as a letter says. Nothing is known of access rights but whether a file can be
executed. -/
def fileHolds (letter : Char) (path : String) : Act Bool := do
  let path ← Act.resolve path
  let kind ← if letter == 'h' || letter == 'L' then Act.entryKind path else Act.fileKind path
  match letter, kind with
  | _, .error _ => return false
  | 'h', .ok kind | 'L', .ok kind => return kind == .link
  | 'd', .ok kind => return kind == .directory
  | 'f', .ok kind => return kind != .directory
  | 'x', .ok kind => return kind != .file false
  | 's', .ok _ =>
    match ← Act.readFile path with
    | .ok contents => return contents.size != 0
    | .error _ => return true
  | 'b', _ | 'c', _ | 'p', _ | 'S', _ | 'g', _ | 'k', _ | 'u', _ => return false
  | _, .ok _ => return true

def isSameFile (a b : String) : Act Bool := do
  match ← Act.locate (← Act.resolve a), ← Act.locate (← Act.resolve b) with
  | .ok a, .ok b => return a == b
  | _, _ => return false

/-- A number that is needed. -/
def requireNumber (text : String) : Act Int :=
  match number? text with
  | some n => return n
  | none => Act.fail ("Illegal number: " ++ text)

/-- Whether a condition holds. Both sides of it are looked at in any case. -/
def evaluate : Condition → Act Bool
  | missing => return false
  | notEmpty text => return !text.isEmpty
  | empty text => return text.isEmpty
  | terminal descriptor => do
    discard (requireNumber descriptor)
    return false
  | file letter path => fileHolds letter path
  | texts c left right => return c.holds left right
  | numbers c left right => do
    let a ← requireNumber left
    return c.holds a (← requireNumber right)
  | sameFile left right => isSameFile left right
  | negated condition => return !(← condition.evaluate)
  | both left right => do
    let a ← left.evaluate
    return (← right.evaluate) && a
  | either left right => do
    let a ← left.evaluate
    return (← right.evaluate) || a

end Condition

end LayeredConfig.Shell
