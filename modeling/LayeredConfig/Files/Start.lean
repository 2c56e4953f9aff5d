import LayeredConfig.Files.Program

/-!
# Starting programs

A file can be started when it is executable and holds machine code, or when its first line names
an interpreter that can be started in its place. The interpreter gets the path of the file among
its arguments. Nothing is said here about what a program then does.
-/

namespace LayeredConfig

/-- A program that is to run, with its arguments; the first one is the name it runs under. -/
structure Launch where
  /-- Where relative paths start. -/
  directory : Path
  program : Path
  arguments : List String
deriving DecidableEq, Repr

namespace Launch

/-! ## Machine code -/

/-- The octet at a position, and zero behind the end. -/
def octet (contents : ByteArray) (position : Nat) : Nat :=
  (contents.data[position]?.getD 0).toNat

/-- The number in some octets, the lowest of them first. -/
def number (contents : ByteArray) (position : Nat) : Nat → Nat
  | 0 => 0
  | width + 1 => octet contents position + 256 * number contents (position + 1) width

/-- The octets of one row in the table of segments. -/
def segmentRow : Nat := 56

/-- Machine code starts with a header that names its kind, the machine, and a table of segments
that lies inside the file. -/
def isMachineCode (contents : ByteArray) : Bool :=
  let segments := number contents 56 2 * segmentRow
  contents.data.toList.take 4 == [0x7F, 0x45, 0x4C, 0x46]
    && (number contents 16 2 == 2 || number contents 16 2 == 3)
    && number contents 18 2 == 0x3E
    && number contents 54 2 == segmentRow
    && 0 < segments && segments ≤ 65536
    && number contents 32 8 + segments ≤ contents.size

/-! ## Interpreters -/

/-- How far into a file its interpreter is looked for. -/
def headLength : Nat := 256

/-- The start of a file, with zeros behind its end. -/
def head (contents : ByteArray) : List UInt8 :=
  let start := contents.data.toList.take headLength
  start ++ List.replicate (headLength - start.length) 0

def isBlankOctet (b : UInt8) : Bool := b == 0x20 || b == 0x09

def endsName (b : UInt8) : Bool := isBlankOctet b || b == 0

/-- Octets as a text. One that belongs to no character stands for a control character, which the
name of no program has. -/
def textOf (octets : List UInt8) : String :=
  (String.fromUTF8? ⟨octets.toArray⟩).getD
    (String.ofList (octets.map fun b => if b < 0x80 then Char.ofNat b.toNat else '\x01'))

/-- A program that runs a file, with at most one argument of its own. -/
structure Interpreter where
  path : Path
  argument : Option String
deriving DecidableEq, Repr

/-- What a line without blanks around it says. -/
def Interpreter.ofLine (line : List UInt8) : Interpreter where
  path := ⟨textOf (line.takeWhile (!endsName ·))⟩
  argument :=
    match line.dropWhile (!endsName ·) with
    | [] => none
    | 0 :: _ => none
    | rest =>
      let argument := rest.dropWhile isBlankOctet
      if argument.isEmpty then none else some (textOf (argument.takeWhile (· != 0)))

def trimBlanks (line : List UInt8) : List UInt8 :=
  ((line.dropWhile isBlankOctet).reverse.dropWhile isBlankOctet).reverse

/-- The interpreter that the start of a file names. A line that goes on behind the start counts
when the name is certain to have ended. -/
def interpreter? (contents : ByteArray) : Option Interpreter :=
  match head contents with
  | 0x23 :: 0x21 :: rest =>
    let line := rest.takeWhile fun b => b != 0x0A && b != 0
    let isWhole := (rest.drop line.length).head? == some 0x0A
    let line := trimBlanks (if isWhole then line else rest.dropLast)
    if (isWhole || (rest.dropWhile isBlankOctet).any endsName) && !line.isEmpty then
      some (.ofLine line)
    else none
  | _ => none

/-! ## Starting -/

/-- How many scripts may stand in for one another. -/
def maxScripts : Nat := 5

/-- The contents of a file that may be started. A path without a name is the working directory. -/
def contentsOf (directory path : Path) : FileProgram (Except FileError ByteArray) := do
  if path.isEmpty then return .error .permissionDenied
  match ← FileProgram.call (.kind (directory.join path.text)) with
  | .error e => return .error e
  | .ok (.file true) => FileProgram.call (.read (directory.join path.text))
  | .ok _ => return .error .permissionDenied

/-- Goes from a script to its interpreter until there is machine code. An interpreter has to be
there even when too many scripts came before it. -/
def follow (scripts : Nat) (launch : Launch) (contents : ByteArray) :
    FileProgram (Except FileError Launch) := do
  if isMachineCode contents then return .ok launch
  match interpreter? contents with
  | none => return .error .execFormat
  | some ⟨path, argument⟩ =>
    match ← contentsOf launch.directory path with
    | .error e => return .error e
    | .ok contents =>
      match scripts with
      | 0 => return .error .tooManyLinks
      | scripts + 1 =>
        let arguments :=
          path.text :: argument.toList ++ launch.program.text :: launch.arguments.drop 1
        follow scripts { launch with program := path, arguments } contents

/-- The machine code that starting a program comes to. -/
def start (launch : Launch) : FileProgram (Except FileError Launch) := do
  match ← contentsOf launch.directory launch.program with
  | .error e => return .error e
  | .ok contents => follow maxScripts launch contents

end Launch

end LayeredConfig
