import LayeredConfig.Files.Program
import LayeredConfig.Settings.Table
import LayeredConfig.Shell.Command

/-!
# Sessions

A session is what a running shell knows: variables, parameters, functions, its directory and what
its descriptors are connected with. Work in a session may leave what it is in the middle of by a
jump. Files are reached by file operations only.
-/

namespace LayeredConfig.Shell

structure Variable where
  /-- Missing when a name is only marked. -/
  value : Option String := none
  exported : Bool := false
  readOnly : Bool := false
deriving DecidableEq, Repr, Inhabited

/-- What a descriptor is connected with. -/
inductive Channel where
  | nothing
  | stream (number : Nat)
  | file (path : Path)
deriving DecidableEq, Repr

structure Options where
  /-- A command that fails ends the shell. -/
  exitOnFailure : Bool := false
  /-- Words are not matched with the names of files. -/
  noFiles : Bool := false
  /-- A parameter without a value is an error. -/
  noMissing : Bool := false
  /-- Commands are read but not run. -/
  noRun : Bool := false
  /-- Commands are shown before they run. -/
  trace : Bool := false
deriving DecidableEq, Repr

structure Session where
  /-- The name that the shell gives itself in messages. -/
  name : String
  parameters : List String := []
  bindings : List (String × Variable) := []
  functions : List (String × Command) := []
  directory : Path
  options : Options := {}
  channels : List (Nat × Channel) := []
  process : Nat := 1
  /-- The status of the last command. -/
  status : Nat := 0
  /-- The status of the last command whose output came in the place of a word. -/
  outputStatus : Nat := 0
  lastBackground : Option Nat := none
  line : Nat := 1
  /-- The command of the shell itself that is running. -/
  command : Option String := none
  /-- Whether output of that command got lost. -/
  unwritten : Bool := false
  /-- How many loops are running. -/
  loops : Nat := 0
  /-- The variables that are to be as before when the running function ends. -/
  shadowed : Option (List (String × Option Variable)) := none
  /-- What to do at a signal; number zero stands for the end of the shell. -/
  traps : List (Nat × String) := []
  /-- Actions of traps that are still to be done. -/
  pending : List String := []
  /-- Texts that descriptors append to or take from. -/
  streams : Array ByteArray := #[]
  /-- The last number given to a process. -/
  processes : Nat := 1

/-- The session when a process of its own has ended: what it wrote stays. -/
def Session.afterProcess (before after : Session) : Session :=
  { before with streams := after.streams, processes := after.processes }

/-- A way out of what is being done. -/
inductive Jump where
  | exit (status : Nat)
  /-- Something went wrong and was reported. -/
  | failed
  | killed (process signal : Nat)
  /-- Out of as many loops. -/
  | leaveLoop (levels : Nat)
  /-- To the next round of the loop that is as many levels up. -/
  | nextRound (levels : Nat)
  | giveBack (status : Nat)
deriving DecidableEq, Repr

abbrev Act := ExceptT Jump (StateT Session FileProgram)

namespace Act

def call (op : FileOp) : Act op.Answer :=
  ExceptT.lift (StateT.lift (FileProgram.call op))

def fileKind (path : Path) : Act (Except FileError FileKind) := call (.kind path)

def entryKind (path : Path) : Act (Except FileError FileKind) := call (.entryKind path)

def locate (path : Path) : Act (Except FileError Path) := call (.locate path)

def readFile (path : Path) : Act (Except FileError ByteArray) := call (.read path)

def writeFile (path : Path) (contents : ByteArray) : Act (Except FileError Unit) :=
  call (.write path contents)

def createFile (path : Path) : Act (Except FileError Unit) := call (.create path)

def namesBelow (directory : Path) : Act (Except FileError (List String)) := call (.list directory)

/-- Tells how some work ended instead of jumping. -/
def attempt {α : Type} (work : Act α) : Act (Except Jump α) :=
  ExceptT.mk do return .ok (← work.run)

/-- A path as seen from the directory of the shell. -/
def resolve (path : String) : Act Path := do
  let s ← get
  return if path.isEmpty then ⟨""⟩ else s.directory.join path

/-! ## Channels -/

def channel (descriptor : Nat) : Act (Option Channel) := do
  return (← get).channels.lookup descriptor

def connect (descriptor : Nat) (channel : Option Channel) : Act Unit :=
  modify fun s =>
    let others := s.channels.filter (·.1 != descriptor)
    { s with channels := (channel.map fun c => (descriptor, c)).toList ++ others }

def newStream (contents : ByteArray) : Act Nat := do
  let number := (← get).streams.size
  modify fun s => { s with streams := s.streams.push contents }
  return number

def streamContents (number : Nat) : Act ByteArray := do
  return (← get).streams[number]?.getD ByteArray.empty

def setStream (number : Nat) (contents : ByteArray) : Act Unit :=
  modify fun s => { s with streams := s.streams.setIfInBounds number contents }

/-- Writes behind what is in a channel; tells whether the descriptor is connected. -/
def write (descriptor : Nat) (contents : ByteArray) : Act Bool := do
  match ← channel descriptor with
  | none => return false
  | some .nothing => return true
  | some (.stream number) =>
    setStream number ((← streamContents number) ++ contents)
    return true
  | some (.file path) =>
    match ← readFile path with
    | .ok before =>
      discard (writeFile path (before ++ contents))
      return true
    | .error _ => return false

/-- Writes to the standard output, or remembers that there is none. -/
def put (contents : ByteArray) : Act Unit := do
  if !(← write 1 contents) && contents.size != 0 then
    modify fun s => { s with unwritten := true }

def say (text : String) : Act Unit :=
  put text.toUTF8

/-- Takes all that is left in a channel. -/
def takeAll (descriptor : Nat) : Act ByteArray := do
  match ← channel descriptor with
  | some (.stream number) =>
    let contents ← streamContents number
    setStream number ByteArray.empty
    return contents
  | _ => return ByteArray.empty

/-- The octets up to a line end, without it if there is one, and the rest behind it. -/
def splitLine (contents : ByteArray) : Option (ByteArray × Bool × ByteArray) :=
  let octets := contents.data.toList
  if octets.isEmpty then none
  else
    let line := octets.takeWhile (· != 0x0A)
    let rest := octets.drop line.length
    some (⟨line.toArray⟩, !rest.isEmpty, ⟨(rest.drop 1).toArray⟩)

/-- Takes one line out of a channel and tells whether it has an end. -/
def takeLine (descriptor : Nat) : Act (Option (ByteArray × Bool)) := do
  match ← channel descriptor with
  | some (.stream number) =>
    match splitLine (← streamContents number) with
    | none => return none
    | some (line, ended, rest) =>
      setStream number rest
      return some (line, ended)
  | _ => return none

/-- Octets as a text. -/
def decode (contents : ByteArray) : String :=
  match String.fromUTF8? contents with
  | some text => text
  | none => String.ofList (contents.data.toList.map fun b =>
      if b < 0x80 then Char.ofNat b.toNat else '\uFFFD')

/-! ## Messages -/

/-- A message with the name of the shell, the line and the running command. -/
def complain (text : String) : Act Unit := do
  let s ← get
  let command := (s.command.map (· ++ ": ")).getD ""
  discard (write 2 (s.name ++ ": " ++ toString s.line ++ ": " ++ command ++ text ++ "\n").toUTF8)

/-- Stops with a message. -/
def fail {α : Type} (text : String) : Act α := do
  complain text
  throw .failed

/-! ## Variables -/

def lookUp? (name : String) : Act (Option Variable) := do
  return (← get).bindings.lookup name

def value? (name : String) : Act (Option String) := do
  return (← lookUp? name).bind Variable.value

def changeVariable (name : String) (change : Variable → Variable) : Act Unit :=
  modify fun s =>
    match s.bindings.lookup name with
    | some v =>
      { s with bindings := s.bindings.map fun (name', v') =>
          if name' == name then (name, change v) else (name', v') }
    | none => { s with bindings := s.bindings ++ [(name, change {})] }

/-- Sets a variable that may be set. -/
def setVariable (name value : String) : Act Unit := do
  if ((← lookUp? name).map Variable.readOnly).getD false then fail (name ++ ": is read only")
  changeVariable name fun v => { v with value := some value }

def unsetVariable (name : String) : Act Unit :=
  modify fun s => { s with bindings := s.bindings.filter (·.1 != name) }

/-- Variables are kept in as many groups, which decide about their order. -/
def groupCount : Nat := 39

def group (name : String) : Nat :=
  let octets := name.toUTF8.data.toList.map UInt8.toNat
  (octets.headD 0 * 16 + octets.foldl (· + ·) 0) % groupCount

/-- What other programs get to see. -/
def environment : Act (List (String × String)) := do
  let seen := (← get).bindings.filterMap fun (name, v) =>
    if v.exported then v.value.map fun value => (name, value) else none
  return seen.mergeSort fun a b => group a.1 ≤ group b.1

/-! ## Processes -/

/-- The status that a process ends with after a jump out of its work. A signal to another process
goes on to that one. -/
def endOfProcess : Except Jump Nat → Act Nat
  | .ok status => return status
  | .error (.exit status) => return status
  | .error .failed => return 2
  | .error (.giveBack status) => return status
  | .error (.killed process signal) => throw (.killed process signal)
  | .error (.leaveLoop _) => return 0
  | .error (.nextRound _) => return 0

/-- Work of a process of its own. -/
def apart (work : Act Nat) : Act Nat := do
  let before ← get
  modify fun s => { s with traps := s.traps.filter fun (_, action) => action.isEmpty }
  let result ← attempt work
  modify before.afterProcess
  endOfProcess result

/-- Work with some descriptors connected in another way. -/
def connected {α : Type} (descriptors : List (Nat × Channel)) (work : Act α) : Act α := do
  let before := (← get).channels
  descriptors.forM fun (descriptor, channel) => connect descriptor (some channel)
  let result ← attempt work
  modify fun s => { s with channels := before }
  ExceptT.mk (pure result)

end Act

end LayeredConfig.Shell
