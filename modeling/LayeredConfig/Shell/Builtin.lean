import LayeredConfig.Shell.Condition
import LayeredConfig.Shell.Expansion
import LayeredConfig.Shell.Format

/-!
# Commands of the shell itself

These commands read and change the session, so no other program could do their work. A failure of
one of the special ones ends the shell.
-/

namespace LayeredConfig.Shell.Builtin

open Act

/-! ## Arguments -/

def requireNumber (text : String) : Act Nat :=
  if !text.isEmpty && text.all Char.isDigit then return numberOf text.toList
  else fail ("Illegal number: " ++ text)

/-- Reads options of one letter each and gives the letters with the other arguments. -/
def options (letters : List Char) : List String → Act (List Char × List String)
  | [] => return ([], [])
  | argument :: rest =>
    match argument.toList with
    | ['-', '-'] => return ([], rest)
    | '-' :: c :: more => do
      match (c :: more).find? fun c => !letters.contains c with
      | some unknown => fail ("Illegal option -" ++ String.singleton unknown)
      | none =>
        let (others, arguments) ← options letters rest
        return ((c :: more) ++ others, arguments)
    | _ => return ([], argument :: rest)

/-! ## Output -/

def echo (arguments : List String) : Act Nat := do
  put (Format.echo arguments)
  return 0

def printf (arguments : List String) : Act Nat := do
  let (_, arguments) ← options [] arguments
  match arguments with
  | [] => fail "usage: printf format [arg ...]"
  | format :: arguments =>
    let (progress, failure) := Format.printf format arguments
    put ⟨progress.octets.toArray⟩
    progress.complaints.forM complain
    match failure with
    | some e => fail e.message
    | none => return if progress.complaints.isEmpty then 0 else 1

/-! ## Conditions -/

def test (arguments : List String) : Act Nat := do
  if arguments.isEmpty then return 1
  match Condition.parse arguments with
  | .error text => fail text
  | .ok (condition, words) =>
    let holds ← condition.evaluate
    match words with
    | last :: _ :: _ => fail (last ++ ": unexpected operator")
    | _ => return if holds then 0 else 1

/-- The condition between brackets. -/
def bracket (arguments : List String) : Act Nat := do
  if arguments.getLast? != some "]" then fail "missing ]"
  test arguments.dropLast

/-! ## Directories -/

/-- The names of an absolute path after those that take one another away. -/
def simplify : List String → List String → List String
  | before, [] => before.reverse
  | before, "" :: rest => simplify before rest
  | before, "." :: rest => simplify before rest
  | before, ".." :: rest => simplify (before.drop 1) rest
  | before, name :: rest => simplify (name :: before) rest

def simplified (p : Path) : Path :=
  ⟨"/" ++ "/".intercalate (simplify [] (p.text.splitOn "/"))⟩

/-- Makes a path the directory of the shell. -/
def enter (p : Path) : Act Unit := do
  let before := (← get).directory
  modify fun s => { s with directory := p }
  changeVariable "OLDPWD" fun v => { v with value := some before.text, exported := true }
  changeVariable "PWD" fun v => { v with value := some p.text, exported := true }

def changeDirectory (arguments : List String) : Act Nat := do
  let (letters, arguments) ← options ['L', 'P'] arguments
  let target ← (do match arguments with
    | [] => return (← value? "HOME").getD ""
    | "-" :: _ => return (← value? "OLDPWD").getD (← get).directory.text
    | target :: _ => return target : Act String)
  let simple := simplified ((← get).directory.join target)
  let path ← (if letters.getLast? == some 'P' then
      return ((← locate simple).toOption).getD simple
    else return simple)
  match ← fileKind path with
  | .ok .directory =>
    enter path
    if arguments.head? == some "-" then say (path.text ++ "\n")
    return 0
  | _ => fail ("can't cd to " ++ target)

def printDirectory (arguments : List String) : Act Nat := do
  discard (options ['L', 'P'] arguments)
  say ((← get).directory.text ++ "\n")
  return 0

/-! ## Reading -/

/-- A line with its escaped characters marked as quoted, and whether it goes on in the next one. -/
def unescapeLine : List Char → List Mark × Bool
  | [] => ([], false)
  | ['\\'] => ([], true)
  | '\\' :: c :: rest =>
    let (marks, continues) := unescapeLine rest
    (⟨c, true⟩ :: marks, continues)
  | c :: rest =>
    let (marks, continues) := unescapeLine rest
    (⟨c, false⟩ :: marks, continues)

/-- Takes lines as long as they are continued, and tells whether the last one has an end. -/
def takeLines : Nat → Bool → Act (List Mark × Bool)
  | 0, _ => return ([], false)
  | count + 1, raw => do
    match ← takeLine 0 with
    | none => return ([], false)
    | some (line, ended) =>
      let text := decode line
      if raw then return (Mark.ofText false text, ended)
      let (marks, continues) := unescapeLine text.toList
      if !continues || !ended then return (marks, ended)
      let (more, ended) ← takeLines count raw
      return (marks ++ more, ended)

/-- The first field of a line and what follows it. -/
def splitFirst (separators : List Char) (line : List Mark) : List Mark × List Mark :=
  let separates (m : Mark) : Bool := !m.quoted && separators.contains m.char
  let blank (m : Mark) : Bool := separates m && Splitting.isBlankSeparator m.char
  let line := line.dropWhile blank
  let field := line.takeWhile (!separates ·)
  let rest := (line.drop field.length).dropWhile blank
  match rest with
  | m :: more => (field, if separates m then more.dropWhile blank else rest)
  | [] => (field, [])

/-- A line without the separators at its end that say nothing. -/
def trimLast (separators : List Char) (line : List Mark) : List Mark :=
  let blank (m : Mark) : Bool :=
    !m.quoted && separators.contains m.char && Splitting.isBlankSeparator m.char
  ((line.dropWhile blank).reverse.dropWhile blank).reverse

/-- Gives the fields of a line to variables, and all that is left to the last one. -/
def giveFields (separators : List Char) : List String → List Mark → Act Unit
  | [], _ => return ()
  | [name], line => setVariable name (Mark.toText (trimLast separators line))
  | name :: rest, line => do
    let (field, line) := splitFirst separators line
    setVariable name (Mark.toText field)
    giveFields separators rest line

def read (arguments : List String) : Act Nat := do
  let (letters, names) ← options ['r'] arguments
  if names.isEmpty then fail "arg count"
  let (line, ended) ← takeLines 1000 (letters.contains 'r')
  giveFields (← separators) names line
  return if ended then 0 else 1

/-! ## Parameters and options -/

def optionNames : List (Char × String) :=
  [('e', "errexit"), ('f', "noglob"), ('n', "noexec"), ('x', "xtrace"), ('u', "nounset")]

/-- Letters of options that make no difference to commands that are not typed in. -/
def otherLetters : List Char := ['I', 'i', 'm', 's', 'v', 'V', 'E', 'C', 'a', 'b']

def otherNames : List String :=
  ["ignoreeof", "interactive", "monitor", "stdin", "verbose", "vi", "emacs", "noclobber",
   "allexport", "notify", "nolog", "debug"]

def setOption (on : Bool) (letter : Char) : Act Unit := do
  if otherLetters.contains letter then return
  if (optionNames.lookup letter).isNone then
    fail ("Illegal option -" ++ String.singleton letter)
  modify fun s => { s with options :=
    { exitOnFailure := if letter == 'e' then on else s.options.exitOnFailure,
      noFiles := if letter == 'f' then on else s.options.noFiles,
      noMissing := if letter == 'u' then on else s.options.noMissing,
      noRun := if letter == 'n' then on else s.options.noRun,
      trace := if letter == 'x' then on else s.options.trace } }

def setNamedOption (on : Bool) (name : String) : Act Unit := do
  if otherNames.contains name then return
  match optionNames.find? (·.2 == name) with
  | some (letter, _) => setOption on letter
  | none => fail ("Illegal option -o " ++ name)

/-- What options at the start of arguments leave. -/
structure Settings where
  /-- Whether a command line was announced. -/
  commandLine : Bool := false
  /-- Whether a sign said that no more options follow. -/
  closed : Bool := false
  arguments : List String

/-- Sets options. One that is `named` is the next argument. A command line can only be announced
when the shell starts. -/
def setOptions (starting : Bool) (named : Option Bool) : List String → Act Settings
  | [] => return { arguments := [] }
  | argument :: rest =>
    match named, argument.toList with
    | some on, _ => do
      setNamedOption on argument
      setOptions starting none rest
    | none, ['-'] => return { arguments := rest }
    | none, ['-', '-'] => return { closed := true, arguments := rest }
    | none, sign :: letters => do
      if sign != '-' && sign != '+' then return { arguments := argument :: rest }
      let on := sign == '-'
      letters.forM fun letter =>
        if letter == 'o' || (starting && (letter == 'c' || letter == 'l')) then return ()
        else setOption on letter
      let settings ← setOptions starting (if letters.contains 'o' then some on else none) rest
      let announced := starting && letters.contains 'c'
      return { settings with commandLine := settings.commandLine || announced }
    | none, [] => return { arguments := argument :: rest }

def set (arguments : List String) : Act Nat := do
  let settings ← setOptions false none arguments
  if settings.closed || !settings.arguments.isEmpty then
    modify fun s => { s with parameters := settings.arguments }
  return 0

def shift (arguments : List String) : Act Nat := do
  let count ← match arguments with
    | [] => pure 1
    | text :: _ => requireNumber text
  if (← get).parameters.length < count then fail "can't shift that many"
  modify fun s => { s with parameters := s.parameters.drop count }
  return 0

/-! ## Variables -/

/-- A text between quotes, in which a quote is written between other quotes. -/
def quoted (text : String) : String :=
  "'" ++ "'\"'\"'".intercalate (text.splitOn "'") ++ "'"

/-- Lists the variables that are marked. -/
def showMarked (command : String) (marked : Variable → Bool) : Act Unit := do
  let shown := ((← get).bindings.filter fun (_, v) => marked v).mergeSort fun a b => a.1 ≤ b.1
  shown.forM fun (name, v) =>
    say (command ++ " " ++ name ++ ((v.value.map ("=" ++ quoted ·)).getD "") ++ "\n")

/-- The name and the value that an argument sets. -/
def splitAssignment (argument : String) : String × Option String :=
  let name := argument.toList.takeWhile (· != '=')
  let value := argument.toList.drop name.length
  (String.ofList name, if value.isEmpty then none else some (String.ofList (value.drop 1)))

def requireName (name : String) : Act Unit := do
  if !isName name then fail (name ++ ": bad variable name")

/-- Marks variables, which may get values as well. -/
def mark (command : String) (marked : Variable → Bool) (change : Variable → Variable)
    (arguments : List String) : Act Nat := do
  let (letters, arguments) ← options ['p'] arguments
  if letters.contains 'p' || arguments.isEmpty then showMarked command marked
  else
    arguments.forM fun argument => do
      let (name, value) := splitAssignment argument
      requireName name
      value.forM (setVariable name)
      changeVariable name change
  return 0

def unset (arguments : List String) : Act Nat := do
  let (letters, arguments) ← options ['f', 'v'] arguments
  arguments.forM fun name => do
    if letters.getLast? == some 'f' then
      modify fun s => { s with functions := s.functions.filter (·.1 != name) }
    else
      requireName name
      if ((← lookUp? name).map Variable.readOnly).getD false then
        fail (name ++ ": is read only")
      unsetVariable name
  return 0

/-- Makes variables local to the running function. -/
def makeLocal (arguments : List String) : Act Nat := do
  match (← get).shadowed with
  | none => fail "not in a function"
  | some _ =>
    arguments.forM fun argument => do
      let (name, value) := splitAssignment argument
      let before ← lookUp? name
      modify fun s => { s with shadowed := s.shadowed.map ((name, before) :: ·) }
      value.forM (setVariable name)
    return 0

/-! ## Jumps -/

/-- The status that an argument asks for, or that of the last command. -/
def askedStatus (arguments : List String) : Act Nat :=
  match arguments with
  | [] => return (← get).status
  | text :: _ => requireNumber text

def askedLevels (arguments : List String) : Act Nat := do
  match arguments with
  | [] => return 1
  | text :: _ =>
    let levels ← requireNumber text
    if levels == 0 then fail ("Illegal number: " ++ text)
    return levels

/-- Jumps out of loops, if there are any. -/
def jumpLoops (jump : Nat → Jump) (arguments : List String) : Act Nat := do
  let levels ← askedLevels arguments
  let loops := (← get).loops
  if loops == 0 then return 0
  throw (jump (min levels loops))

/-! ## Signals -/

def signalNames : List String :=
  ["EXIT", "HUP", "INT", "QUIT", "ILL", "TRAP", "ABRT", "BUS", "FPE", "KILL", "USR1", "SEGV",
   "USR2", "PIPE", "ALRM", "TERM", "STKFLT", "CHLD", "CONT", "STOP", "TSTP", "TTIN", "TTOU", "URG",
   "XCPU", "XFSZ", "VTALRM", "PROF", "WINCH", "IO", "PWR", "SYS"]

/-- How many signals there are. -/
def signalCount : Nat := 65

def signal? (text : String) : Option Nat :=
  if !text.isEmpty && text.all Char.isDigit then
    let n := numberOf text.toList
    if n < signalCount then some n else none
  else signalNames.findIdx? (· == text.toUpper)

/-- Signals that a process takes no notice of. -/
def harmless : List Nat := [0, 17, 18, 19, 20, 21, 22, 23, 28]

/-- Sends a signal to the shell itself. -/
def receive (signal : Nat) : Act Unit := do
  let s ← get
  match if signal == 9 then none else s.traps.lookup signal with
  | some action =>
    if !action.isEmpty then modify fun s => { s with pending := s.pending ++ [action] }
  | none => if !harmless.contains signal then throw (.killed s.process signal)

def killUsage : String :=
  "Usage: kill [-s sigspec | -signum | -sigspec] [pid | job]... or\nkill -l [exitstatus]"

def sendAll (signal : Nat) : List String → Act Nat
  | [] => return 0
  | text :: rest => do
    let process ← requireNumber text
    if process == (← get).process then
      receive signal
      sendAll signal rest
    else
      complain "No such process\n"
      discard (sendAll signal rest)
      return 1

def listSignals (arguments : List String) : Act Nat := do
  match arguments with
  | [] =>
    say (String.join ((signalNames.drop 1).map (· ++ "\n")))
    return 0
  | text :: _ =>
    let n ← requireNumber text
    match signalNames[if 128 < n then n - 128 else n]? with
    | some name => say (name ++ "\n")
    | none => fail ("invalid signal number or exit status: " ++ text)
    return 0

def kill (arguments : List String) : Act Nat := do
  let send (signal : Nat) (arguments : List String) : Act Nat :=
    if arguments.isEmpty then fail killUsage else sendAll signal arguments
  match arguments with
  | [] => fail killUsage
  | "-l" :: rest => listSignals rest
  | "-s" :: rest =>
    match rest with
    | [] => fail "No arg for -s option"
    | name :: rest =>
      match signal? name with
      | some signal => send signal rest
      | none => fail ("invalid signal number or name: " ++ name)
  | "--" :: rest => send 15 rest
  | first :: rest =>
    match first.toList with
    | '-' :: name =>
      match signal? (String.ofList name), name with
      | some signal, _ => send signal rest
      | none, c :: _ => fail ("Illegal option -" ++ String.singleton c)
      | none, [] => send 15 arguments
    | _ => send 15 arguments

def setTrap (action : Option String) (name : String) : Act Bool := do
  match signal? name with
  | none =>
    discard (write 2 ("trap: " ++ name ++ ": bad trap\n").toUTF8)
    return false
  | some signal =>
    modify fun s =>
      let others := s.traps.filter (·.1 != signal)
      { s with traps := (action.map fun a => (signal, a)).toList ++ others }
    return true

def trap (arguments : List String) : Act Nat := do
  let (_, arguments) ← options [] arguments
  let setAll (action : Option String) (names : List String) : Act Nat := do
    let results ← names.mapM (setTrap action)
    return if results.all id then 0 else 1
  match arguments with
  | [] =>
    let shown := (← get).traps.mergeSort fun a b => a.1 ≤ b.1
    shown.forM fun (signal, action) =>
      say ("trap -- " ++ quoted action ++ " " ++ (signalNames[signal]?.getD "") ++ "\n")
    return 0
  | [name] => setAll none [name]
  | "-" :: names => setAll none names
  | action :: names =>
    if (signal? action).isSome then setAll none (action :: names) else setAll (some action) names

/-! ## The table -/

/-- The commands that neither run other commands nor look for programs. -/
def table : List (String × (List String → Act Nat)) :=
  [(":", fun _ => return 0), ("true", fun _ => return 0), ("false", fun _ => return 1),
   ("echo", echo), ("printf", printf), ("test", test), ("[", bracket), ("cd", changeDirectory),
   ("chdir", changeDirectory), ("pwd", printDirectory), ("read", read), ("set", set),
   ("shift", shift),
   ("export", mark "export" Variable.exported fun v => { v with exported := true }),
   ("readonly", mark "readonly" Variable.readOnly fun v => { v with readOnly := true }),
   ("unset", unset), ("local", makeLocal),
   ("exit", fun arguments => do throw (.exit (← askedStatus arguments))),
   ("return", fun arguments => do throw (.giveBack (← askedStatus arguments))),
   ("break", jumpLoops .leaveLoop), ("continue", jumpLoops .nextRound), ("kill", kill),
   ("trap", trap), ("wait", fun _ => return 0), ("umask", fun _ => do say "0022\n"; return 0)]

end LayeredConfig.Shell.Builtin
