import LayeredConfig.Shell.Command

/-!
# Reading commands

Commands are read one line at a time, or more lines when a command goes on; what follows is left
for later. Words that decide about the structure of a command are known by their place only: in
other places they are words as any other.
-/

namespace LayeredConfig.Shell

structure SyntaxError where
  line : Nat
  text : String
deriving DecidableEq, Repr

/-! ## Characters -/

def isBlank (c : Char) : Bool := c == ' ' || c == '\t'

def isNameStart (c : Char) : Bool := c.isAlpha || c == '_'

def isNameChar (c : Char) : Bool := c.isAlphanum || c == '_'

def isName (text : String) : Bool :=
  match text.toList with
  | [] => false
  | c :: rest => isNameStart c && rest.all isNameChar

/-- Ends a word that is not quoted. -/
def endsWord (c : Char) : Bool :=
  isBlank c || c == '\n' || c == ';' || c == '&' || c == '|' || c == '<' || c == '>'
    || c == '(' || c == ')'

/-! ## Tokens -/

inductive Token where
  | endOfText
  | newline
  | operator (text : String)
  | keyword (text : String)
  | redirection (descriptor : Nat) (kind : RedirectionKind)
  /-- The text between lines that only hold its mark. -/
  | inlineText (descriptor : Nat) (contents : Word)
  | word (word : Word)
deriving Inhabited

def keywords : List String :=
  ["!", "case", "do", "done", "elif", "else", "esac", "fi", "for", "if", "in", "then", "until",
   "while", "\x7b", "\x7d"]

/-- Commands of the shell itself that no function can have the name of. -/
def specialNames : List String :=
  [":", ".", "break", "continue", "eval", "exec", "exit", "export", "local", "readonly", "return",
   "set", "shift", "times", "trap", "unset"]

namespace Token

def describe : Token → String
  | endOfText => "end of file"
  | newline => "newline"
  | operator text => "\"" ++ text ++ "\""
  | keyword text => "\"" ++ text ++ "\""
  | redirection _ _ => "redirection"
  | inlineText _ _ => "redirection"
  | word _ => "word"

/-- A word without quotes that is a keyword becomes one. -/
def asKeyword : Token → Token
  | word w =>
    match Word.plainText? w with
    | some text => if keywords.contains text then keyword text else word w
    | none => word w
  | token => token

def isOperator (text : String) : Token → Bool
  | operator text' => text == text'
  | _ => false

def isKeyword (text : String) : Token → Bool
  | keyword text' => text == text'
  | _ => false

/-- Whether no more commands of a list can follow. -/
def endsList : Token → Bool
  | endOfText => true
  | operator text => [")", ";;"].contains text
  | keyword text => ["do", "done", "elif", "else", "esac", "fi", "then", "\x7d"].contains text
  | _ => false

end Token

/-! ## What is still to be read -/

structure Source where
  rest : List Char
  line : Nat := 1
  /-- A token that was read too early. -/
  token : Option Token := none

def Source.ofText (text : String) : Source := { rest := text.toList }

abbrev Reading := StateT Source (Except SyntaxError)

namespace Reading

/-- Where an error is reported. -/
def fail {α : Type} (text : String) : Reading α := do
  throw ⟨(← get).line, "Syntax error: " ++ text⟩

def unexpected {α : Type} (token : Token) : Reading α :=
  fail (token.describe ++ " unexpected")

/-- Fails because `token` stands where `expected` has to stand. -/
def expecting {α : Type} (token : Token) (expected : String) : Reading α :=
  fail (token.describe ++ " unexpected (expecting " ++ expected ++ ")")

def pushBack (token : Token) : Reading Unit :=
  modify fun s => { s with token := some token }

/-- Goes on behind some characters. -/
def skip (count : Nat) : Reading Unit :=
  modify fun s =>
    { s with rest := s.rest.drop count, line := s.line + (s.rest.take count).count '\n' }

/-- The characters up to the first one that does not fit. -/
def span (fits : Char → Bool) : Reading String := do
  let found := (← get).rest.takeWhile fits
  skip found.length
  return String.ofList found

/-- Passes over blanks, joined lines and a comment. -/
def skipBlanks (s : Source) : Source :=
  go s.line s.rest
where
  go (line : Nat) : List Char → Source
    | '\\' :: '\n' :: rest => go (line + 1) rest
    | ' ' :: rest => go line rest
    | '\t' :: rest => go line rest
    | '#' :: rest => { s with rest := rest.dropWhile (· != '\n'), line }
    | rest => { s with rest, line }

/-- The operators, longer ones before their beginnings. -/
def operators : List String := ["&&", "&", "||", "|", ";;", ";", "(", ")"]

def redirections : List (String × RedirectionKind) :=
  [("<&", .sameInput), ("<>", .inputAndOutput), ("<", .input), (">>", .append), (">|", .output),
   (">&", .sameOutput), (">", .output)]

/-- Reads input or output, whichever is meant when nothing else is said. -/
def defaultDescriptor : RedirectionKind → Nat
  | .input | .inputAndOutput | .sameInput | .text => 0
  | .output | .append | .sameOutput => 1

/-- The sign that starts a text. -/
def startOf? {α : Type} (signs : List (String × α)) (text : List Char) : Option (Nat × α) :=
  (signs.find? fun (sign, _) => sign.toList.isPrefixOf text).map fun (sign, a) => (sign.length, a)

/-- The lines up to one that is only a mark, and what follows behind the mark. -/
def splitAtMark (mark : List Char) (dropTabs : Bool) : List (List Char) →
    List (List Char) × List (List Char)
  | [] => ([], [])
  | line :: rest =>
    let line := if dropTabs then line.dropWhile (· == '\t') else line
    if line == mark then ([], rest)
    else
      let (inside, rest) := splitAtMark mark dropTabs rest
      (line :: inside, rest)

def splitLines (current : List Char) : List Char → List (List Char)
  | [] => [current.reverse]
  | '\n' :: rest => current.reverse :: splitLines [] rest
  | c :: rest => splitLines (c :: current) rest

/-- Takes the text up to a mark out of the lines behind the current one. -/
def takeInlineText (mark : String) (dropTabs : Bool) : Reading String := do
  let rest := (← get).rest
  let current := rest.takeWhile (· != '\n')
  let later := splitLines [] (rest.drop (current.length + 1))
  let (inside, later) := splitAtMark mark.toList dropTabs later
  modify fun s => { s with rest := current ++ '\n' :: ['\n'].intercalate later }
  return String.ofList (inside.flatMap (· ++ ['\n']))

end Reading

/-! ## Parameters -/

def specialParameter? : Char → Option Parameter
  | '@' => some .each
  | '*' => some .joined
  | '#' => some .count
  | '?' => some .status
  | '$' => some .process
  | '!' => some .background
  | '-' => some .flags
  | _ => none

def numberOf (digits : List Char) : Nat :=
  digits.foldl (fun n c => 10 * n + (c.toNat - '0'.toNat)) 0

/-- The parameter at the start of a text between braces, with its length. -/
def parameterAt? (text : List Char) : Option (Parameter × Nat) :=
  match text with
  | [] => none
  | c :: _ =>
    if isNameStart c then
      let name := text.takeWhile isNameChar
      some (.named (String.ofList name), name.length)
    else if c.isDigit then
      let digits := text.takeWhile Char.isDigit
      some (.positional (numberOf digits), digits.length)
    else (specialParameter? c).map fun p => (p, 1)

/-- The parameter right behind a dollar sign, with its length. -/
def shortParameterAt? (text : List Char) : Option (Parameter × Nat) :=
  match text with
  | c :: _ => if c.isDigit then some (.positional (numberOf [c]), 1) else parameterAt? text
  | [] => none

/-- How the use of a parameter is written. -/
def useSigns : List (String × (List Part → Use)) :=
  [(":-", .orElse true), (":=", .assign true), (":?", .require true), (":+", .instead true),
   ("-", .orElse false), ("=", .assign false), ("?", .require false), ("+", .instead false),
   ("##", .trim false true), ("#", .trim false false), ("%%", .trim true true),
   ("%", .trim true false)]

/-! ## Words -/

/-- What a part of a word stands in. -/
inductive Place where
  | bare
  | quotes
  | braces (quoted : Bool)
  /-- An arithmetic expression, with as many open brackets. -/
  | expression (depth : Nat)
  | inlineText
deriving DecidableEq, Repr

namespace Place

/-- Whether a text in this place is quoted. -/
def isQuoted : Place → Bool
  | bare | braces false => false
  | _ => true

/-- Whether a backslash takes the meaning away from a character. -/
def escapes (place : Place) (c : Char) : Bool :=
  match place with
  | bare | braces false => true
  | quotes => ['$', '\x60', '"', '\\'].contains c
  | braces true => ['$', '\x60', '"', '\\', '\x7d'].contains c
  | expression _ | inlineText => ['$', '\x60', '\\'].contains c

/-- What is missing at the end of the text. -/
def missing? : Place → Option String
  | bare | inlineText => none
  | quotes => some "Unterminated quoted string"
  | braces true => some "Unterminated quoted string"
  | braces false => some "Missing '\x7d'"
  | expression _ => some "Missing '))'"

end Place

/-- A home directory at the start of a word. -/
def markHome : Word → Word
  | .text false text :: rest =>
    match text.toList with
    | ['~'] => if rest.isEmpty then [.home] else .text false text :: rest
    | '~' :: '/' :: path => .home :: .text false (String.ofList ('/' :: path)) :: rest
    | _ => .text false text :: rest
  | word => word

/-- The texts between colons in the value of a variable may each start with a home directory. -/
def markHomes (value : Word) : Word :=
  match markHome value with
  | .text false text :: rest => markEach text ++ rest
  | Part.home :: .text false text :: rest => Part.home :: markEach text ++ rest
  | value => value
where
  markEach (text : String) : Word :=
    [Part.text false ":"].intercalate
      ((text.splitOn ":").map fun part => markHome [.text false part])

/-- The name and value of a word that sets a variable. -/
def assignment? : Word → Option (String × Word)
  | .text false text :: rest =>
    let name := text.toList.takeWhile (· != '=')
    if isName (String.ofList name) && name.length < text.length then
      let value := String.ofList (text.toList.drop (name.length + 1))
      some (String.ofList name, markHomes (if value.isEmpty then rest else .text false value :: rest))
    else none
  | _ => none

/-- The mark of an inline text without its quotes. -/
def markOf (word : Word) : String :=
  String.join (word.map fun part => match part with
    | .text _ text => text
    | _ => "")

/-- What a text between accent marks says when it is read as commands. -/
def unescapeAccents (quoted : Bool) : List Char → List Char
  | '\\' :: c :: rest =>
    if c == '\n' then unescapeAccents quoted rest
    else if c == '\\' || c == '\x60' || c == '$' || (quoted && c == '"') then
      c :: unescapeAccents quoted rest
    else '\\' :: c :: unescapeAccents quoted rest
  | c :: rest => c :: unescapeAccents quoted rest
  | [] => []

/-- The text up to an accent mark, and the number of characters that it takes. -/
def accentText? : List Char → Option (List Char × Nat)
  | '\x60' :: _ => some ([], 1)
  | '\\' :: c :: rest =>
    (accentText? rest).map fun (text, length) => ('\\' :: c :: text, length + 2)
  | c :: rest => (accentText? rest).map fun (text, length) => (c :: text, length + 1)
  | [] => none

open Reading in
mutual

/-- The parts of a word up to the end of the place it stands in. -/
def readParts : Nat → Place → Reading Word
  | 0, _ => fail "too deep"
  | fuel + 1, place => do
    match (← get).rest with
    | [] =>
      match place.missing? with
      | none => return []
      | some text => fail text
    | '\\' :: '\n' :: _ =>
      skip 2
      readParts fuel place
    | '\\' :: c :: _ =>
      if place.escapes c then
        skip 2
        return Word.cons (.text true (String.singleton c)) (← readParts fuel place)
      else
        skip 1
        return Word.cons (.text true "\\") (← readParts fuel place)
    | '$' :: _ =>
      skip 1
      let part ← readDollar fuel place.isQuoted
      return Word.cons part (← readParts fuel place)
    | '\x60' :: rest =>
      match accentText? rest with
      | none =>
        skip (rest.length + 1)
        fail "EOF in backquote substitution"
      | some (text, length) =>
        let line := (← get).line
        skip (length + 1)
        let after ← get
        set { after with rest := unescapeAccents place.isQuoted text, line }
        let command ← readList fuel false true none
        set after
        return .output place.isQuoted command :: (← readParts fuel place)
    | c :: _ =>
      match place, c with
      | .quotes, '"' => return []
      | .braces _, '\x7d' => return []
      | .expression (depth + 1), ')' =>
        skip 1
        return Word.cons (.text true ")") (← readParts fuel (.expression depth))
      | .expression depth, '(' =>
        skip 1
        return Word.cons (.text true "(") (← readParts fuel (.expression (depth + 1)))
      | .expression 0, ')' =>
        if [')', ')'].isPrefixOf (← get).rest then return []
        skip 1
        return Word.cons (.text true ")") (← readParts fuel place)
      | .bare, '\'' | .braces false, '\'' =>
        skip 1
        let text ← span (· != '\'')
        if (← get).rest.isEmpty then fail "Unterminated quoted string"
        skip 1
        return Word.cons (.text true text) (← readParts fuel place)
      | .bare, '"' | .braces _, '"' =>
        skip 1
        let inside ← readParts fuel .quotes
        skip 1
        let inside := if inside.isEmpty then [.text true ""] else inside
        return inside.foldr Word.cons (← readParts fuel place)
      | _, _ =>
        if place == .bare && endsWord c then return []
        skip 1
        return Word.cons (.text place.isQuoted (String.singleton c)) (← readParts fuel place)

/-- What a dollar sign stands for. -/
def readDollar : Nat → Bool → Reading Part
  | 0, _ => fail "too deep"
  | fuel + 1, quoted => do
    match (← get).rest with
    | '(' :: '(' :: _ =>
      skip 2
      let expression ← readParts fuel (.expression 0)
      skip 2
      return .value quoted expression
    | '(' :: _ =>
      skip 1
      let command ← readList fuel false true none
      let token ← readToken fuel false true
      if token.isOperator ")" then return .output quoted command
      else expecting token "\")\""
    | '\x7b' :: _ =>
      skip 1
      readBraces fuel quoted
    | rest =>
      match shortParameterAt? rest with
      | none => return .text quoted "$"
      | some (parameter, length) =>
        skip length
        return .parameter quoted parameter .plain

/-- A parameter between braces. -/
def readBraces : Nat → Bool → Reading Part
  | 0, _ => fail "too deep"
  | fuel + 1, quoted => do
    let finish (parameter : Parameter) (use : Use) : Reading Part := do
      skip 1
      return .parameter quoted parameter use
    let invalid (parameter : Parameter) : Reading Part := do
      discard (readParts fuel (.braces quoted))
      finish parameter .invalid
    let used (parameter : Parameter) : Reading Part := do
      match (← get).rest with
      | '\x7d' :: _ => finish parameter .plain
      | rest =>
        match startOf? useSigns rest with
        | none => invalid parameter
        | some (length, use) =>
          skip length
          let isPattern := match use [] with
            | .trim _ _ _ => true
            | _ => false
          finish parameter (use (markHome (← readParts fuel (.braces (quoted && !isPattern)))))
    match (← get).rest with
    | '#' :: '\x7d' :: _ =>
      skip 1
      finish .count .plain
    | '#' :: rest =>
      match parameterAt? rest with
      | some (parameter, length) =>
        if (rest.drop length).head? == some '\x7d' then
          skip (length + 1)
          finish parameter .length
        else
          skip 1
          used .count
      | none =>
        skip 1
        used .count
    | rest =>
      match parameterAt? rest with
      | none => invalid (.named "")
      | some (parameter, length) =>
        skip length
        used parameter

/-- The next token, behind line ends if `newlines`, and as a keyword if `asKeyword`. -/
def readToken : Nat → Bool → Bool → Reading Token
  | 0, _, _ => fail "too deep"
  | fuel + 1, newlines, asKeyword => do
    let token ← (do
      match (← get).token with
      | some token =>
        modify fun s => { s with token := none }
        return token
      | none => readNewToken fuel)
    match token with
    | .newline => if newlines then readToken fuel newlines asKeyword else return .newline
    | token => return if asKeyword then token.asKeyword else token

def readNewToken : Nat → Reading Token
  | 0 => fail "too deep"
  | fuel + 1 => do
    modify skipBlanks
    let rest := (← get).rest
    match rest with
    | [] => return .endOfText
    | '\n' :: _ =>
      skip 1
      return .newline
    | _ =>
      let digits := rest.takeWhile Char.isDigit
      match startOf? redirections (rest.drop digits.length) with
      | some (length, kind) =>
        let descriptor := if digits.isEmpty then defaultDescriptor kind else numberOf digits
        if ['<', '<'].isPrefixOf (rest.drop digits.length) then
          skip (digits.length + 2)
          readInlineText fuel descriptor
        else
          skip (digits.length + length)
          return .redirection descriptor kind
      | none =>
        match startOf? (operators.map fun text => (text, text)) rest with
        | some (length, text) =>
          skip length
          return .operator text
        | none =>
          return .word (← readParts fuel .bare)

/-- The text behind the sign of an inline text. -/
def readInlineText : Nat → Nat → Reading Token
  | 0, _ => fail "too deep"
  | fuel + 1, descriptor => do
    let dropTabs := (← get).rest.head? == some '-'
    if dropTabs then skip 1
    match ← readToken fuel false false with
    | .word mark =>
      let isPlain := (Word.plainText? mark).isSome
      let text ← takeInlineText (markOf mark) dropTabs
      if !isPlain then return .inlineText descriptor [.text true text]
      let after ← get
      set { after with rest := text.toList }
      let contents ← readParts fuel .inlineText
      set after
      return .inlineText descriptor contents
    | token => unexpected token

/-- The commands up to the end of a line if `line`, else up to a token that ends a list. Whether
there may be none says `optional`; those before are given. -/
def readList : Nat → Bool → Bool → Option Command → Reading Command
  | 0, _, _, _ => fail "too deep"
  | fuel + 1, line, optional, before => do
    let done := before.getD .nothing
    match ← readToken fuel (!line) true with
    | .newline => return done
    | .endOfText =>
      pushBack .endOfText
      return done
    | token =>
      pushBack token
      if (optional || before.isSome) && !line && token.endsList then return done
      let command ← readAndOr fuel
      match ← readToken fuel false false with
      | .operator "&" => readList fuel line optional (some (.after before (.background command)))
      | .operator ";" => readList fuel line optional (some (.after before command))
      | .newline =>
        pushBack .newline
        readList fuel line optional (some (.after before command))
      | .endOfText =>
        pushBack .endOfText
        return .after before command
      | token =>
        if line then unexpected token
        pushBack token
        return .after before command

def readAndOr : Nat → Reading Command
  | 0 => fail "too deep"
  | fuel + 1 => do readAndOrRest fuel (← readPipeline fuel false)

def readAndOrRest : Nat → Command → Reading Command
  | 0, _ => fail "too deep"
  | fuel + 1, first => do
    match ← readToken fuel false false with
    | .operator "&&" => readAndOrRest fuel (.both first (← readPipeline fuel true))
    | .operator "||" => readAndOrRest fuel (.either first (← readPipeline fuel true))
    | token =>
      pushBack token
      return first

def readPipeline : Nat → Bool → Reading Command
  | 0, _ => fail "too deep"
  | fuel + 1, newlines => do
    let token ← readToken fuel newlines true
    let isNegated := token.isKeyword "!"
    if !isNegated then pushBack token
    let first ← readCommand fuel false
    let rest ← readPipelineRest fuel
    let command := if rest.isEmpty then first else .pipeline (first :: rest)
    return if isNegated then .negated command else command

def readPipelineRest : Nat → Reading (List Command)
  | 0 => fail "too deep"
  | fuel + 1 => do
    match ← readToken fuel false false with
    | .operator "|" =>
      let command ← readCommand fuel true
      return command :: (← readPipelineRest fuel)
    | token =>
      pushBack token
      return []

def readCommand : Nat → Bool → Reading Command
  | 0, _ => fail "too deep"
  | fuel + 1, newlines => do
    let token ← readToken fuel newlines true
    let line := (← get).line
    match token with
    | .keyword "if" => readRedirected fuel line (← readIf fuel "fi")
    | .keyword "while" => readRedirected fuel line (← readLoop fuel false)
    | .keyword "until" => readRedirected fuel line (← readLoop fuel true)
    | .keyword "for" => readRedirected fuel line (← readFor fuel)
    | .keyword "case" => readRedirected fuel line (← readCase fuel)
    | .keyword "\x7b" =>
      let body ← readList fuel false false none
      readEnd fuel (.keyword "\x7d")
      readRedirected fuel line (.group body)
    | .operator "(" =>
      let body ← readList fuel false false none
      readEnd fuel (.operator ")")
      readRedirected fuel line (.subshell body)
    | .word _ | .redirection _ _ | .inlineText _ _ =>
      pushBack token
      readSimple fuel line true [] [] []
    | token => unexpected token

/-- Reads the token that ends a command. -/
def readEnd : Nat → Token → Reading Unit
  | 0, _ => fail "too deep"
  | fuel + 1, expected => do
    let token ← readToken fuel false true
    let isExpected := match expected, token with
      | .keyword a, .keyword b => a == b
      | .operator a, .operator b => a == b
      | _, _ => false
    if !isExpected then expecting token expected.describe

/-- The redirections behind a command that ends with a keyword or a bracket. -/
def readRedirected : Nat → Nat → Command → Reading Command
  | 0, _, _ => fail "too deep"
  | fuel + 1, line, command => do
    match ← readRedirections fuel with
    | [] => return command
    | redirections => return .redirected line command redirections

def readRedirections : Nat → Reading (List Redirection)
  | 0 => fail "too deep"
  | fuel + 1 => do
    match ← readToken fuel false true with
    | .redirection descriptor kind =>
      let redirection ← readTarget fuel descriptor kind
      return redirection :: (← readRedirections fuel)
    | .inlineText descriptor contents =>
      return .mk descriptor .text contents :: (← readRedirections fuel)
    | token =>
      pushBack token
      return []

def readTarget : Nat → Nat → RedirectionKind → Reading Redirection
  | 0, _, _ => fail "too deep"
  | fuel + 1, descriptor, kind => do
    match ← readToken fuel false false with
    | .word word =>
      return .mk descriptor kind (markHome word)
    | token => unexpected token

/-- Assignments, words and redirections; what was read before is given in reverse. Assignments can
only stand in front of the words. -/
def readSimple : Nat → Nat → Bool → List (String × Word) → List Word → List Redirection →
    Reading Command
  | 0, _, _, _, _, _ => fail "too deep"
  | fuel + 1, line, mayAssign, assignments, words, redirections => do
    let done : Command := .simple line assignments.reverse words.reverse redirections.reverse
    match ← readToken fuel false false with
    | .word word =>
      match mayAssign, assignment? word with
      | true, some assignment =>
        readSimple fuel line true (assignment :: assignments) words redirections
      | _, _ => readSimple fuel line false assignments (markHome word :: words) redirections
    | .redirection descriptor kind =>
      let redirection ← readTarget fuel descriptor kind
      readSimple fuel line mayAssign assignments words (redirection :: redirections)
    | .inlineText descriptor contents =>
      readSimple fuel line mayAssign assignments words
        (.mk descriptor .text contents :: redirections)
    | .operator "(" =>
      match words, assignments, redirections with
      | [word], [], [] =>
        readEnd fuel (.operator ")")
        match Word.plainText? word with
        | none => fail "Bad function name"
        | some name =>
          if !isName name || specialNames.contains name then fail "Bad function name"
          return .define name (← readCommand fuel true)
      | _, _, _ =>
        pushBack (.operator "(")
        return done
    | token =>
      pushBack token
      return done

/-- What follows the first keyword of a conditional command. -/
def readIf : Nat → String → Reading Command
  | 0, _ => fail "too deep"
  | fuel + 1, last => do
    let test ← readList fuel false false none
    readEnd fuel (.keyword "then")
    let yes ← readList fuel false false none
    match ← readToken fuel false true with
    | .keyword "elif" => return .conditional test yes (← readIf fuel last)
    | .keyword "else" =>
      let no ← readList fuel false false none
      readEnd fuel (.keyword last)
      return .conditional test yes no
    | token =>
      pushBack token
      readEnd fuel (.keyword last)
      return .conditional test yes .nothing

def readLoop : Nat → Bool → Reading Command
  | 0, _ => fail "too deep"
  | fuel + 1, untilSuccess => do
    let test ← readList fuel false false none
    readEnd fuel (.keyword "do")
    let body ← readList fuel false false none
    readEnd fuel (.keyword "done")
    return .loop untilSuccess test body

def readFor : Nat → Reading Command
  | 0 => fail "too deep"
  | fuel + 1 => do
    let line := (← get).line
    let name := match ← readToken fuel false false with
      | .word word => (Word.plainText? word).getD ""
      | _ => ""
    if !isName name then fail "Bad for loop variable"
    let token ← readToken fuel true true
    let words ← (if token.isKeyword "in" then readForWords fuel
      else do
        if !token.isOperator ";" then pushBack token
        return [[.parameter true .each .plain]])
    let token ← readToken fuel true true
    if !token.isKeyword "do" then expecting token "\"do\""
    let body ← readList fuel false false none
    readEnd fuel (.keyword "done")
    return .forEach line name words body

def readForWords : Nat → Reading (List Word)
  | 0 => fail "too deep"
  | fuel + 1 => do
    match ← readToken fuel false false with
    | .word word => return markHome word :: (← readForWords fuel)
    | .newline | .operator ";" => return []
    | token => unexpected token

def readCase : Nat → Reading Command
  | 0 => fail "too deep"
  | fuel + 1 => do
    let line := (← get).line
    match ← readToken fuel false false with
    | .word word =>
      let token ← readToken fuel true true
      if !token.isKeyword "in" then expecting token "\"in\""
      return .choice line (markHome word) (← readCases fuel)
    | token => expecting token "word"

def readCases : Nat → Reading (List (List Word × Command))
  | 0 => fail "too deep"
  | fuel + 1 => do
    match ← readToken fuel true true with
    | .keyword "esac" => return []
    | token =>
      if !token.isOperator "(" then pushBack token
      let patterns ← readPatterns fuel
      let body ← readList fuel false true none
      match ← readToken fuel true true with
      | .keyword "esac" => return [(patterns, body)]
      | .operator ";;" => return (patterns, body) :: (← readCases fuel)
      | token => expecting token "\";;\""

/-- Patterns with bars between them, up to a bracket. -/
def readPatterns : Nat → Reading (List Word)
  | 0 => fail "too deep"
  | fuel + 1 => do
    let pattern := match ← readToken fuel false false with
      | .word word => word
      | .keyword text => [.text false text]
      | _ => []
    match ← readToken fuel false false with
    | .operator "|" => return pattern :: (← readPatterns fuel)
    | .operator ")" => return [pattern]
    | token => expecting token "\")\""

end

/-- The next line with commands and what follows it, or nothing at the end. -/
def Source.next? (s : Source) : Except SyntaxError (Option Command × Source) := do
  let fuel := 20 * s.rest.length + 100
  let (token, s) ← (readToken fuel false true).run s
  match token with
  | .endOfText => return (none, s)
  | token =>
    let (command, s) ← (readList fuel true false none).run { s with token := some token }
    return (some command, s)

end LayeredConfig.Shell
