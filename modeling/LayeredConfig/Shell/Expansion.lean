import LayeredConfig.Shell.Arithmetic
import LayeredConfig.Shell.Field

/-!
# Expansion

A word stands for as many fields as come out of it when its parameters, commands and expressions
are replaced by their values. Running a command is left to a function that is given.
-/

namespace LayeredConfig.Shell

/-! ## Parameters -/

def Parameter.describe : Parameter → String
  | .named name => name
  | .positional number => toString number
  | .each => "@"
  | .joined => "*"
  | .count => "#"
  | .status => "?"
  | .process => "$"
  | .background => "!"
  | .flags => "-"

namespace Act

/-- The characters that fields are split at. -/
def separators : Act (List Char) := do
  return ((← value? "IFS").getD " \t\n").toList

/-- What the positional parameters are joined with. -/
def joint : Act String := do
  let separators ← separators
  return String.ofList (separators.take 1)

def flagLetters (o : Options) : String :=
  (if o.exitOnFailure then "e" else "") ++ (if o.noFiles then "f" else "")
    ++ (if o.noRun then "n" else "") ++ (if o.trace then "x" else "")
    ++ (if o.noMissing then "u" else "")

def parameterValue? : Parameter → Act (Option String)
  | .named name => value? name
  | .positional 0 => return some (← get).name
  | .positional (number + 1) => return (← get).parameters[number]?
  | .each => do
    let all := (← get).parameters
    return if all.isEmpty then none else some (" ".intercalate all)
  | .joined => do
    let all := (← get).parameters
    let joint ← joint
    return if all.isEmpty then none else some (joint.intercalate all)
  | .count => return some (toString (← get).parameters.length)
  | .status => return some (toString (← get).status)
  | .process => return some (toString (← get).process)
  | .background => return (← get).lastBackground.map toString
  | .flags => return some (flagLetters (← get).options)

/-- The value of a parameter, which has to have one if missing ones are errors. -/
def requiredValue (parameter : Parameter) : Act String := do
  match ← parameterValue? parameter with
  | some value => return value
  | none =>
    if (← get).options.noMissing && parameter != .each && parameter != .joined then
      fail (Parameter.describe parameter ++ ": parameter not set")
    return ""

/-- The fields that the value of a parameter makes. -/
def valuePieces (quoted : Bool) (parameter : Parameter) (value : String) : Act (List Piece) := do
  let all := (← get).parameters
  match parameter with
  | .each => return Piece.ofValues quoted all
  | .joined => return if quoted then [.fixed true value] else Piece.ofValues false all
  | _ => return [.ofValue quoted value]

/-! ## Expressions -/

def numberOfVariable (name : String) : Act Int := do
  match ← value? name with
  | none => return 0
  | some text =>
    if text.isEmpty then return 0
    match number? text with
    | some n => return n
    | none => fail ("Illegal number: " ++ text)

def valueOfExpression (text : String) : Act Int := do
  let failWith (e : ArithmeticError) : Act Int :=
    fail ("arithmetic expression: " ++ e.message ++ ": \"" ++ text ++ "\"")
  match Expression.parse text with
  | .error e => failWith e
  | .ok expression =>
    expression.evaluate numberOfVariable
      (fun name value => setVariable name (toString value)) failWith

/-! ## Words -/

def dropLineEnds (text : String) : String :=
  String.ofList (text.toList.reverse.dropWhile (· == '\n')).reverse

mutual

/-- The pieces that come in the place of a word. -/
def piecesOf (output : Command → Act String) : Nat → Word → Act (List Piece)
  | 0, _ => return []
  | _, [] => return []
  | depth + 1, part :: rest => do
    let pieces ← piecesOfPart output depth part
    return pieces ++ (← piecesOf output depth rest)

def piecesOfPart (output : Command → Act String) : Nat → Part → Act (List Piece)
  | 0, _ => return []
  | depth + 1, part =>
    match part with
    | .text quoted text => return [.fixed quoted text]
    | .home => return [.fixed true ((← value? "HOME").getD "~")]
    | .parameter quoted parameter use => piecesOfUse output depth quoted parameter use
    | .output quoted command => return [.ofValue quoted (dropLineEnds (← output command))]
    | .value quoted expression => do
      let text := Piece.toText (← piecesOf output depth expression)
      return [.ofValue quoted (toString (← valueOfExpression text))]

def piecesOfUse (output : Command → Act String) : Nat → Bool → Parameter → Use →
    Act (List Piece)
  | 0, _, _, _ => return []
  | depth + 1, quoted, parameter, use => do
    let present (orEmpty : Bool) : Act (Option String) :=
      return (← parameterValue? parameter).filter fun value => !(orEmpty && value.isEmpty)
    let wordPieces (word : Word) : Act (List Piece) :=
      return (← piecesOf output depth word).map (Piece.within quoted)
    match use with
    | .plain => valuePieces quoted parameter (← requiredValue parameter)
    | .length => return [.ofValue quoted (toString (← requiredValue parameter).utf8ByteSize)]
    | .orElse orEmpty word =>
      match ← present orEmpty with
      | some value => valuePieces quoted parameter value
      | none => wordPieces word
    | .assign orEmpty word =>
      match ← present orEmpty, parameter with
      | some value, _ => valuePieces quoted parameter value
      | none, .named name =>
        let value := Piece.toText (← piecesOf output depth word)
        setVariable name value
        return [.ofValue quoted value]
      | none, _ => fail (Parameter.describe parameter ++ ": bad variable name")
    | .require orEmpty word =>
      match ← present orEmpty with
      | some value => valuePieces quoted parameter value
      | none =>
        let text := Piece.toText (← piecesOf output depth word)
        let standard := "parameter not set" ++ if orEmpty then " or null" else ""
        fail (Parameter.describe parameter ++ ": " ++ if word.isEmpty then standard else text)
    | .instead orEmpty word =>
      match ← present orEmpty with
      | some _ => wordPieces word
      | none => return []
    | .trim atEnd longest word =>
      let value ← requiredValue parameter
      let pattern := Pattern.ofMarks (Piece.marks (← piecesOf output depth word))
      let trimmed :=
        if atEnd then pattern.trimEnd longest value.toList
        else pattern.trimStart longest value.toList
      return [.ofValue quoted (String.ofList trimmed)]
    | .invalid => fail "Bad substitution"

end

/-- The one text that a word stands for where it is not split. -/
def textOfWord (output : Command → Act String) (depth : Nat) (word : Word) : Act String :=
  return Piece.toText (← piecesOf output depth word)

/-- The pattern that a word stands for. -/
def patternOfWord (output : Command → Act String) (depth : Nat) (word : Word) : Act Pattern :=
  return Pattern.ofMarks (Piece.marks (← piecesOf output depth word))

/-- The fields that words stand for. -/
def fieldsOfWords (output : Command → Act String) (depth : Nat) (words : List Word) :
    Act (List String) := do
  let fields ← words.mapM fun word => do
    let pieces ← piecesOf output depth word
    let fields ← (splitFields (← separators) pieces).mapM matchFiles
    return fields.flatten
  return fields.flatten

end Act

end LayeredConfig.Shell
