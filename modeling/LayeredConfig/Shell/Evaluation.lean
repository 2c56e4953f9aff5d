import LayeredConfig.Files.Start
import LayeredConfig.Shell.Utility

/-!
# Running commands

A command runs in a session and ends with a status, zero for success. Programs beside the shell run
as processes of their own, which share what is written and nothing else with the shell.
-/

namespace LayeredConfig.Shell

/-- How a program ended. -/
inductive Ending where
  | exited (status : Nat)
  | killed (signal : Nat)
deriving DecidableEq, Repr

namespace Act

/-! ## Statuses -/

def setStatus (status : Nat) : Act Nat := do
  modify fun s => { s with status }
  return status

/-- What is said about a process that a signal ended. -/
def signalText : Nat → Option String
  | 1 => some "Hangup"
  | 2 => none
  | 3 => some "Quit"
  | 4 => some "Illegal instruction"
  | 6 => some "Aborted"
  | 8 => some "Floating point exception"
  | 9 => some "Killed"
  | 10 => some "User defined signal 1"
  | 11 => some "Segmentation fault"
  | 12 => some "User defined signal 2"
  | 13 => none
  | 14 => some "Alarm clock"
  | 15 => some "Terminated"
  | signal => some ("Unknown signal " ++ toString signal)

def statusOfEnding : Ending → Act Nat
  | .exited status => return status
  | .killed signal => do
    match signalText signal with
    | some text => discard (write 2 (text ++ "\n").toUTF8)
    | none => pure ()
    return 128 + signal

/-- Ends the shell after a failure when it was asked for. -/
def checked (tested : Bool) (status : Nat) : Act Nat := do
  let status ← setStatus status
  if status != 0 && !tested && (← get).options.exitOnFailure then throw (.exit status)
  return status

/-! ## Redirections -/

/-- Why a file that is to be written cannot be made. -/
def creationText : FileError → String
  | .notFound => "Directory nonexistent"
  | .notDirectory => "Directory nonexistent"
  | e => e.text

def openText : FileError → String
  | .notFound => "No such file"
  | .notDirectory => "No such file"
  | e => e.text

/-- Files that stand for a channel. -/
def specialChannel? (path : String) : Act (Option Channel) := do
  match path with
  | "/dev/null" => return some .nothing
  | "/dev/stdin" => channel 0
  | "/dev/stdout" => channel 1
  | "/dev/stderr" => channel 2
  | _ => return none

def openForWriting (path : String) (append : Bool) : Act Channel := do
  let cannot (text : String) : Act Channel := fail ("cannot create " ++ path ++ ": " ++ text)
  match ← specialChannel? path with
  | some c => return c
  | none =>
    let p ← resolve path
    match ← fileKind p with
    | .ok .directory => cannot "Is a directory"
    | .ok _ =>
      if !append then discard (writeFile p ByteArray.empty)
      return .file p
    | .error .notFound =>
      match ← createFile p with
      | .ok () => return .file p
      | .error e => cannot (creationText e)
    | .error e => cannot (creationText e)

def openForReading (path : String) : Act Channel := do
  match ← specialChannel? path with
  | some c => return c
  | none =>
    match ← readFile (← resolve path) with
    | .ok contents => return .stream (← newStream contents)
    | .error .isDirectory => return .nothing
    | .error e => fail ("cannot open " ++ path ++ ": " ++ openText e)

/-- The channel of another descriptor, or none for a minus sign. -/
def sameChannel (target : String) : Act (Option Channel) := do
  if target == "-" then return none
  if target.length != 1 || !target.all Char.isDigit then fail "Syntax error: Bad fd number"
  match ← channel (numberOf target.toList) with
  | some c => return some c
  | none => fail (target ++ ": Bad file descriptor")

def redirect (output : Command → Act String) (depth : Nat) (r : Redirection) : Act Unit := do
  let ⟨descriptor, kind, target⟩ := r
  let target ← textOfWord output depth target
  match kind with
  | .input => connect descriptor (some (← openForReading target))
  | .output => connect descriptor (some (← openForWriting target false))
  | .append => connect descriptor (some (← openForWriting target true))
  | .inputAndOutput => connect descriptor (some (← openForWriting target true))
  | .sameInput => connect descriptor (← sameChannel target)
  | .sameOutput => connect descriptor (← sameChannel target)
  | .text => connect descriptor (some (.stream (← newStream target.toUTF8)))

/-- Work under redirections, which fails with status two when one of them does. -/
def redirected (output : Command → Act String) (depth : Nat) (redirections : List Redirection)
    (work : Act Nat) : Act Nat := do
  let before := (← get).channels
  let result ← attempt do
    match ← attempt (redirections.forM (redirect output depth)) with
    | .ok () => work
    | .error .failed => return 2
    | .error jump => throw jump
  modify fun s => { s with channels := before }
  ExceptT.mk (pure result)

/-! ## Simple commands -/

def specialBuiltin (name : String) : Bool := specialNames.contains name

/-- Commands of the shell that run other commands. -/
def runners : List String := ["eval", ".", "exec", "command", "type"]

def isBuiltin (name : String) : Bool :=
  (Builtin.table.lookup name).isSome || runners.contains name

/-- The words of a command that sets variables are expanded as values. -/
def setsVariables : Word → Bool
  | [.text false name] => ["export", "readonly", "local"].contains name
  | _ => false

def fieldsOfCommand (output : Command → Act String) (depth : Nat) (words : List Word) :
    Act (List String) := do
  match words with
  | [] => return []
  | first :: rest =>
    if setsVariables first then
      let fields ← rest.mapM fun word => do
        match assignment? word with
        | some (name, value) => return [name ++ "=" ++ (← textOfWord output depth value)]
        | none => fieldsOfWords output depth [word]
      return (← fieldsOfWords output depth [first]) ++ fields.flatten
    else fieldsOfWords output depth words

/-- Sets variables for a command, and tells what they were before. -/
def setForCommand (values : List (String × String)) : Act (List (String × Option Variable)) :=
  values.mapM fun (name, value) => do
    let before ← lookUp? name
    setVariable name value
    changeVariable name fun v => { v with exported := true }
    return (name, before)

def restoreVariable (before : String × Option Variable) : Act Unit :=
  match before with
  | (name, some v) => changeVariable name fun _ => v
  | (name, none) => unsetVariable name

/-- Work with variables that are as before when it ends. -/
def withVariables (values : List (String × String)) (work : Act Nat) : Act Nat := do
  let before ← setForCommand values
  let result ← attempt work
  before.reverse.forM restoreVariable
  ExceptT.mk (pure result)

/-- Work that messages name a command for. A failure of a command that is not special is a status
like any other. -/
def asBuiltin (name : String) (special : Bool) (work : Act Nat) : Act Nat := do
  let before := (← get).command
  modify fun s => { s with command := some name, unwritten := false }
  let result ← attempt work
  let unwritten := (← get).unwritten
  if unwritten then complain (name ++ ": I/O error")
  modify fun s => { s with command := before, unwritten := false }
  match result with
  | .ok status => return if unwritten then status ||| 1 else status
  | .error .failed => if special then throw .failed else return 2
  | .error jump => throw jump

/-! ## Programs -/

/-- Where a program is, or why there is none. -/
def searchProgram (name : String) : List String → FileError → Act (Except FileError String)
  | [], e => return .error e
  | directory :: rest, e => do
    let path := if directory.isEmpty then name else directory ++ "/" ++ name
    match ← fileKind (← resolve path) with
    | .ok (.file _) => return .ok path
    | .ok _ => searchProgram name rest .permissionDenied
    | .error .notFound => searchProgram name rest e
    | .error .notDirectory => searchProgram name rest e
    | .error e => searchProgram name rest e

def findProgram (name : String) : Act (Except FileError String) := do
  if name.toList.contains '/' then return .ok name
  let path := (← value? "PATH").getD ""
  searchProgram name (path.splitOn ":") .notFound

def programText : FileError → String
  | .notFound => "not found"
  | .notDirectory => "not found"
  | e => e.text

/-- The status that stands for a program that cannot be started. -/
def programStatus : FileError → Nat
  | .notFound | .notDirectory | .tooManyLinks | .nameTooLong => 127
  | _ => 126

/-- What a name stands for as the name of a command. -/
inductive Meaning where
  | keyword
  | function
  | builtin (special : Bool)
  | program (path : String)
  | unknown (e : FileError)

def meaningOf (name : String) : Act Meaning := do
  if keywords.contains name then return .keyword
  if specialBuiltin name && isBuiltin name then return .builtin true
  if ((← get).functions.lookup name).isSome then return .function
  if isBuiltin name then return .builtin false
  match ← findProgram name with
  | .ok path =>
    match ← fileKind (← resolve path) with
    | .ok _ => return .program path
    | .error e => return .unknown e
  | .error e => return .unknown e

/-- Tells what a name stands for. -/
def describeName (name : String) : Act Bool := do
  let describe (text : String) : Act Bool := do
    say (name ++ text ++ "\n")
    return true
  match ← meaningOf name with
  | .keyword => describe " is a shell keyword"
  | .function => describe " is a shell function"
  | .builtin true => describe " is a special shell builtin"
  | .builtin false => describe " is a shell builtin"
  | .program path => describe (" is " ++ path)
  | .unknown e =>
    say (name ++ ": " ++ programText e ++ "\n")
    return false

/-- Writes the name or the path that runs under a name. -/
def showCommand (name : String) : Act Nat := do
  match ← meaningOf name with
  | .program path =>
    say (path ++ "\n")
    return 0
  | .unknown _ => return 127
  | _ =>
    say (name ++ "\n")
    return 0

/-- A session for a new shell with the channels of the present one. -/
def newSession (s : Session) (name : String) (bindings : List (String × String)) : Session :=
  let imported := (bindings.filter fun (n, _) => isName n).map fun (n, value) =>
    (n, ({ value := some value, exported := true } : Variable))
  let setOnce (name value : String) (exported : Bool) (all : List (String × Variable)) :=
    (name, ({ value := some value, exported } : Variable)) :: all.filter (·.1 != name)
  let bindings := setOnce "PWD" s.directory.text true
    (setOnce "IFS" " \t\n" false (setOnce "OPTIND" "1" false (setOnce "PS4" "+ " false imported)))
  { name, bindings, directory := s.directory, channels := s.channels, streams := s.streams,
    process := s.processes + 1, processes := s.processes + 1, line := 0 }

/-- Splits the assignments in front of a command from it. -/
def spanAssignments (arguments : List String) : List (String × String) × List String :=
  let isAssignment (a : String) : Bool := a.toList.contains '='
  let assignments := arguments.takeWhile isAssignment
  (assignments.map fun a =>
    let (name, value) := Builtin.splitAssignment a
    (name, value.getD ""), arguments.drop assignments.length)

end Act

open Act in
mutual

/-- Runs a command. Nothing ends the shell when a failure is `tested`. -/
def evaluate : Nat → Bool → Command → Act Nat
  | 0, _, _ => throw .failed
  | fuel + 1, tested, command => do
    let redirecting (line : Nat) (redirections : List Redirection) (work : Act Nat) : Act Nat := do
      modify fun s => { s with line }
      redirected (outputOf fuel) fuel redirections work
    match command with
    | .nothing => setStatus 0
    | .simple line assignments words redirections =>
      modify fun s => { s with line, outputStatus := 0 }
      let status ← evaluateSimple fuel assignments words redirections
      let status ← checked tested status
      runPending fuel
      return status
    | .redirected line command redirections =>
      checked tested (← redirecting line redirections (evaluate fuel tested command))
    | .negated command =>
      let status ← evaluate fuel true command
      setStatus (if status == 0 then 1 else 0)
    | .sequence first second =>
      discard (evaluate fuel tested first)
      evaluate fuel tested second
    | .both first second =>
      let status ← evaluate fuel true first
      if status == 0 then evaluate fuel tested second else return status
    | .either first second =>
      let status ← evaluate fuel true first
      if status == 0 then return status else evaluate fuel tested second
    | .pipeline commands => checked tested (← evaluatePipeline fuel commands none)
    | .background command =>
      let number := (← get).processes + 1
      modify fun s => { s with processes := number }
      discard (apart do
        connect 0 (some .nothing)
        evaluate fuel tested command)
      modify fun s => { s with lastBackground := some number }
      setStatus 0
    | .subshell command => checked tested (← apart (evaluate fuel tested command))
    | .group command => evaluate fuel tested command
    | .conditional test yes no =>
      let status ← evaluate fuel true test
      if status == 0 then evaluate fuel tested yes else evaluate fuel tested no
    | .loop untilSuccess test body =>
      modify fun s => { s with loops := s.loops + 1 }
      let result ← attempt (evaluateLoop fuel tested untilSuccess test body 0)
      modify fun s => { s with loops := s.loops - 1 }
      setStatus (← ExceptT.mk (pure result))
    | .forEach line name words body =>
      modify fun s => { s with line }
      let fields ← fieldsOfWords (outputOf fuel) fuel words
      modify fun s => { s with loops := s.loops + 1 }
      let result ← attempt (evaluateEach fuel tested name body 0 fields)
      modify fun s => { s with loops := s.loops - 1 }
      setStatus (← ExceptT.mk (pure result))
    | .choice line word cases =>
      modify fun s => { s with line }
      let text ← textOfWord (outputOf fuel) fuel word
      evaluateChoice fuel tested text cases
    | .define name body =>
      modify fun s =>
        { s with functions := (name, body) :: s.functions.filter (·.1 != name) }
      setStatus 0

/-- What a command writes. -/
def outputOf : Nat → Command → Act String
  | 0, _ => throw .failed
  | fuel + 1, command => do
    let number ← newStream ByteArray.empty
    let status ← apart do
      connect 1 (some (.stream number))
      evaluate fuel false command
    modify fun s => { s with outputStatus := status }
    return decode ((← streamContents number).data.filter (· != 0) |> ByteArray.mk)

/-- Commands that read what the one before them writes. -/
def evaluatePipeline : Nat → List Command → Option Channel → Act Nat
  | 0, _, _ => throw .failed
  | _, [], _ => return 0
  | fuel + 1, command :: rest, input => do
    let reading : Act Unit := input.forM fun c => connect 0 (some c)
    if rest.isEmpty then
      apart do
        reading
        evaluate fuel false command
    else
      let number ← newStream ByteArray.empty
      discard (apart do
        reading
        connect 1 (some (.stream number))
        evaluate fuel false command)
      evaluatePipeline fuel rest (some (.stream number))

/-- Runs the body of a loop, and tells whether the loop goes on. -/
def evaluateRound : Nat → Bool → Command → Act (Nat × Bool)
  | 0, _, _ => throw .failed
  | fuel + 1, tested, body => do
    match ← attempt (evaluate fuel tested body) with
    | .ok status => return (status, true)
    | .error (.leaveLoop levels) =>
      if levels ≤ 1 then return (0, false) else throw (.leaveLoop (levels - 1))
    | .error (.nextRound levels) =>
      if levels ≤ 1 then return (0, true) else throw (.nextRound (levels - 1))
    | .error jump => throw jump

def evaluateLoop : Nat → Bool → Bool → Command → Command → Nat → Act Nat
  | 0, _, _, _, _, _ => throw .failed
  | fuel + 1, tested, untilSuccess, test, body, status => do
    let (decision, continues) ← evaluateRound fuel true test
    if !continues || ((decision == 0) == untilSuccess) then return status
    let (status, continues) ← evaluateRound fuel tested body
    if continues then evaluateLoop fuel tested untilSuccess test body status else return status

def evaluateEach : Nat → Bool → String → Command → Nat → List String → Act Nat
  | 0, _, _, _, _, _ => throw .failed
  | _, _, _, _, status, [] => return status
  | fuel + 1, tested, name, body, _, field :: rest => do
    setVariable name field
    let (status, continues) ← evaluateRound fuel tested body
    if continues then evaluateEach fuel tested name body status rest else return status

/-- Runs the first case with a pattern that fits. -/
def evaluateChoice : Nat → Bool → String → List (List Word × Command) → Act Nat
  | 0, _, _, _ => throw .failed
  | _, _, _, [] => setStatus 0
  | fuel + 1, tested, text, (patterns, body) :: rest => do
    let fitting ← patterns.mapM fun pattern => do
      return (← patternOfWord (outputOf fuel) fuel pattern).fits text.toList
    if fitting.any id then evaluate fuel tested body else evaluateChoice fuel tested text rest

/-- The words are expanded first; then come redirections and assignments. -/
def evaluateSimple : Nat → List (String × Word) → List Word → List Redirection → Act Nat
  | 0, _, _, _ => throw .failed
  | fuel + 1, assignments, words, redirections => do
    let fields ← fieldsOfCommand (outputOf fuel) fuel words
    let values : Act (List (String × String)) := assignments.mapM fun (name, value) => do
      return (name, ← textOfWord (outputOf fuel) fuel value)
    let trace (values : List (String × String)) : Act Unit := do
      if (← get).options.trace then
        let shown := values.map (fun (name, value) => name ++ "=" ++ value) ++ fields
        discard (write 2 ("+ " ++ " ".intercalate shown ++ "\n").toUTF8)
    let setAll (values : List (String × String)) : Act Unit :=
      values.forM fun (name, value) => setVariable name value
    match fields with
    | [] =>
      redirected (outputOf fuel) fuel redirections do
        let values ← values
        setAll values
        if !values.isEmpty then trace values
        return (← get).outputStatus
    | name :: arguments =>
      if specialBuiltin name && isBuiltin name then
        let before := (← get).channels
        redirections.forM (redirect (outputOf fuel) fuel)
        let values ← values
        setAll values
        trace values
        let result ← attempt (asBuiltin name true (runBuiltin fuel name arguments))
        if !(name == "exec" && arguments.isEmpty) then
          modify fun s => { s with channels := before }
        ExceptT.mk (pure result)
      else
        redirected (outputOf fuel) fuel redirections do
          let values ← values
          trace values
          withVariables values (runNamed fuel true name arguments)

/-- Runs what has a name: a function unless it is to be passed over, a command of the shell or a
program. -/
def runNamed : Nat → Bool → String → List String → Act Nat
  | 0, _, _, _ => throw .failed
  | fuel + 1, functions, name, arguments => do
    let known := (← get).functions
    match if functions then known.lookup name else none with
    | some body => runFunction fuel body arguments
    | none =>
      if isBuiltin name then asBuiltin name false (runBuiltin fuel name arguments)
      else
        let ending ← runProgram fuel name arguments
        statusOfEnding ending

def runFunction : Nat → Command → List String → Act Nat
  | 0, _, _ => throw .failed
  | fuel + 1, body, arguments => do
    let before ← get
    modify fun s => { s with parameters := arguments, loops := 0, shadowed := some [] }
    let result ← attempt (evaluate fuel false body)
    let shadowed := (← get).shadowed.getD []
    shadowed.forM restoreVariable
    modify fun s =>
      { s with parameters := before.parameters, loops := before.loops,
               shadowed := before.shadowed }
    match result with
    | .error (.giveBack status) => return status
    | result => ExceptT.mk (pure result)

def runBuiltin : Nat → String → List String → Act Nat
  | 0, _, _ => throw .failed
  | fuel + 1, name, arguments => do
    match name with
    | "eval" =>
      modify fun s => { s with status := 0 }
      runText fuel (.ofText (" ".intercalate arguments)) 0
    | "." => runFile fuel arguments
    | "exec" =>
      match arguments with
      | [] => return 0
      | name :: arguments =>
        match ← runProgram fuel name arguments with
        | .exited status => throw (.exit status)
        | .killed signal => throw (.killed (← get).process signal)
    | "command" =>
      match arguments with
      | [] => return 0
      | "-v" :: name :: _ => showCommand name
      | "-V" :: name :: _ => return if ← describeName name then 0 else 127
      | "-p" :: name :: arguments => runCommand fuel name arguments
      | "--" :: name :: arguments => runCommand fuel name arguments
      | name :: arguments => runCommand fuel name arguments
    | "type" =>
      let results ← arguments.mapM describeName
      return if results.all id then 0 else 127
    | _ =>
      match Builtin.table.lookup name with
      | some run => run arguments
      | none => return 127

/-- Runs what has a name, without the name of another command in messages. -/
def runCommand : Nat → String → List String → Act Nat
  | 0, _, _ => throw .failed
  | fuel + 1, name, arguments => do
    modify fun s => { s with command := none }
    runNamed fuel false name arguments

/-- Runs the commands in a file in the present session. -/
def runFile : Nat → List String → Act Nat
  | 0, _ => throw .failed
  | fuel + 1, arguments => do
    match arguments with
    | [] => return 0
    | name :: _ =>
      let path ← (do
        match ← findProgram name with
        | .ok path => return path
        | .error _ => fail (name ++ ": not found") : Act String)
      match ← readFile (← resolve path) with
      | .error e => fail ("cannot open " ++ path ++ ": " ++ openText e)
      | .ok contents =>
        match ← attempt (runText fuel (.ofText (decode contents)) 0) with
        | .error (.giveBack status) => return status
        | result => ExceptT.mk (pure result)

/-- Runs one line after the other, and gives the status of the last command. -/
def runText : Nat → Source → Nat → Act Nat
  | 0, _, _ => throw .failed
  | fuel + 1, source, status => do
    match source.next? with
    | .error e =>
      modify fun s => { s with line := e.line }
      fail e.text
    | .ok (none, _) => return status
    | .ok (some .nothing, rest) => runText fuel rest status
    | .ok (some command, rest) =>
      if (← get).options.noRun then runText fuel rest status
      else runText fuel rest (← evaluate fuel false command)

/-- Carries out the actions of traps; the status stays as it was. -/
def runPending : Nat → Act Unit
  | 0 => throw .failed
  | fuel + 1 => do
    match (← get).pending with
    | [] => return ()
    | action :: rest =>
      let status := (← get).status
      modify fun s => { s with pending := rest }
      discard (runText fuel (.ofText action) 0)
      modify fun s => { s with status }
      runPending fuel

/-- Runs a program that is looked for by its name. -/
def runProgram : Nat → String → List String → Act Ending
  | 0, _, _ => throw .failed
  | fuel + 1, name, arguments => do
    match ← findProgram name with
    | .error e =>
      complain (name ++ ": " ++ programText e)
      return .exited 127
    | .ok path => runFound fuel name path arguments

/-- Runs a program that was found at a path. -/
def runFound : Nat → String → String → List String → Act Ending
  | 0, _, _, _ => throw .failed
  | fuel + 1, name, path, arguments => do
    let launch : Launch := ⟨(← get).directory, ⟨path⟩, name :: arguments⟩
    match ← ExceptT.lift (StateT.lift launch.start) with
    | .ok launch => runLaunch fuel launch
    | .error .execFormat => runShell fuel ("/bin/sh" :: path :: arguments)
    | .error e =>
      complain (name ++ ": " ++ programText e)
      return .exited (programStatus e)

/-- Runs machine code. What is no known program does not live long. -/
def runLaunch : Nat → Launch → Act Ending
  | 0, _ => throw .failed
  | fuel + 1, launch => do
    let location := match ← locate (launch.directory.join launch.program.text) with
      | .ok path => path
      | .error _ => launch.program
    let program := location.names.getLast?.getD ""
    let name := launch.arguments.headD ""
    let arguments := launch.arguments.drop 1
    if Utility.shellNames.contains program then runShell fuel launch.arguments
    else if program == Utility.environmentName then runEnvironment fuel name arguments
    else match Utility.table.lookup program with
    | some run => return .exited (← apart (run name arguments))
    | none => return .killed 11

/-- Runs a program with other variables. -/
def runEnvironment : Nat → String → List String → Act Ending
  | 0, _, _ => throw .failed
  | fuel + 1, name, arguments => do
    let clears := ["-i", "-"].contains (arguments.headD "")
    let (values, rest) := spanAssignments (if clears then arguments.drop 1 else arguments)
    let found ← match rest with
      | [] => pure (.error .notFound)
      | program :: _ => findProgram program
    let before ← get
    if clears then modify fun s => { s with bindings := [] }
    let result ← attempt (do
      discard (setForCommand values)
      match rest, found with
      | [], _ => return .exited (← Utility.printVariables name [])
      | program :: arguments, .ok path => runFound fuel program path arguments
      | program :: _, .error e =>
        Utility.complain name ("'" ++ program ++ "': " ++ e.text)
        return .exited 127 : Act Ending)
    modify before.afterProcess
    ExceptT.mk (pure result)

/-- Runs a new shell, which has its name as its first argument. -/
def runShell : Nat → List String → Act Ending
  | 0, _ => throw .failed
  | fuel + 1, arguments => do
    let before ← get
    let session := newSession before (arguments.headD "sh") (← environment)
    set session
    let result ← attempt (runArguments fuel (arguments.drop 1))
    let result ← attempt (do
      let status ← endOfProcess result
      match (← get).traps.lookup 0 with
      | none => return status
      | some action =>
        discard (setStatus status)
        modify fun s => { s with traps := [] }
        match ← attempt (runText fuel (.ofText action) 0) with
        | .error jump => endOfProcess (.error jump)
        | .ok _ => return status)
    modify before.afterProcess
    match result with
    | .ok status => return .exited (status % 256)
    | .error (.killed process signal) =>
      if process == session.process then return .killed signal
      throw (.killed process signal)
    | .error jump => throw jump

/-- Does what the arguments of a shell ask for: a command line, the commands in a file, or those
that are read. -/
def runArguments : Nat → List String → Act Nat
  | 0, _ => throw .failed
  | fuel + 1, arguments => do
    let settings ← Builtin.setOptions true none arguments
    match settings.commandLine, settings.arguments with
    | true, [] => fail "-c requires an argument"
    | true, text :: rest =>
      match rest with
      | [] => pure ()
      | name :: parameters => modify fun s => { s with name, parameters }
      runText fuel (.ofText text) 0
    | false, [] => runText fuel (.ofText (decode (← takeAll 0))) 0
    | false, file :: parameters =>
      match ← readFile (← resolve file) with
      | .error e => fail ("cannot open " ++ file ++ ": " ++ openText e)
      | .ok contents =>
        modify fun s => { s with name := file, parameters }
        runText fuel (.ofText (decode contents)) 0

end

/-! ## Running a program -/

/-- How many steps a program may take, one inside another. -/
def maxDepth : Nat := 1000000

/-- What a program that ran leaves. -/
structure Outcome where
  ending : Ending
  stdout : String
  stderr : String

/-- Runs a program with some variables, and nothing to read. -/
def run (bindings : List (String × String)) (launch : Launch) :
    FileProgram (Except FileError Outcome) := do
  match ← launch.start with
  | .error e => return .error e
  | .ok launch =>
    let caller : Session :=
      { name := "", directory := launch.directory,
        bindings := bindings.map fun (name, value) =>
          (name, { value := some value, exported := true }),
        channels := [(0, .nothing), (1, .stream 0), (2, .stream 1)],
        streams := #[ByteArray.empty, ByteArray.empty] }
    let (result, s) ← ((runLaunch maxDepth launch).run).run caller
    let ending := match result with
      | .ok ending => ending
      | .error _ => .exited 2
    let text (number : Nat) : String := Act.decode (s.streams[number]?.getD ByteArray.empty)
    return .ok ⟨ending, text 0, text 1⟩

end LayeredConfig.Shell
