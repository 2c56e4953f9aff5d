import LayeredConfig.CommandLine.Run
import LayeredConfig.Yaml.Reader

/-!
# The program

File operations are carried out on the real disk here, and the ending of a run becomes text and an
exit code. Nothing is known about access rights and links themselves: every file counts as
executable, and an entry is what it leads to. A shell that takes over is the one of this library.
-/

namespace LayeredConfig.Main

/-! ## File operations -/

/-- Some operations report the error number with a minus sign. -/
def numbered (code : UInt32) (text : String) : FileError :=
  .ofCode code.toInt32.toInt.natAbs text

def failureOf : IO.Error → FileError
  | .alreadyExists _ code text => numbered code text
  | .otherError code text => numbered code text
  | .resourceBusy code text => numbered code text
  | .resourceVanished code text => numbered code text
  | .unsupportedOperation code text => numbered code text
  | .hardwareFault code text => numbered code text
  | .unsatisfiedConstraints code text => numbered code text
  | .illegalOperation code text => numbered code text
  | .protocolError code text => numbered code text
  | .timeExpired code text => numbered code text
  | .interrupted _ code text => numbered code text
  | .noFileOrDirectory _ code text => numbered code text
  | .invalidArgument _ code text => numbered code text
  | .permissionDenied _ code text => numbered code text
  | .resourceExhausted _ code text => numbered code text
  | .inappropriateType _ code text => numbered code text
  | .noSuchThing _ code text => numbered code text
  | .unexpectedEof => .other 5 "Input/output error"
  | .userError text => .other 5 text

def attempt {α : Type} (path : Path) (work : IO α) : IO (Except FileError α) := do
  if path.chars.contains '\x00' then return .error .nulInName
  try return .ok (← work)
  catch e => return .error (failureOf e)

/-- A directory can be opened but not read. -/
def kind (path : Path) : IO (Except FileError FileKind) := do
  match ← attempt path (do (← IO.FS.Handle.mk path.text .read).read 1) with
  | .ok _ => return .ok (.file true)
  | .error .isDirectory => return .ok .directory
  | .error e => return .error e

def createTemporary (directory : Path) : IO Path := do
  let path := directory.join (".tmp" ++ toString (← IO.rand 0 1000000000))
  discard (IO.FS.Handle.mk path.text .writeNew)
  return path

def perform (op : FileOp) : IO op.Answer :=
  match op with
  | .kind path => kind path
  | .entryKind path => kind path
  | .locate path => attempt path (do return ⟨(← IO.FS.realPath path.text).toString⟩)
  | .read path => attempt path (IO.FS.readBinFile path.text)
  | .list path => attempt path (do
      return (← (← IO.FS.realPath path.text).readDir).toList.map (·.fileName))
  | .createDirectory path => attempt path (IO.FS.createDir path.text)
  | .create path => attempt path (discard (IO.FS.Handle.mk path.text .writeNew))
  | .createTemporary directory => attempt directory (createTemporary directory)
  | .write path contents => attempt path (IO.FS.writeBinFile path.text contents)
  | .rename source target => attempt source (IO.FS.rename source.text target.text)
  | .remove path => attempt path (IO.FS.removeFile path.text)

/-! ## A run -/

def surroundings : IO CommandLine.Surroundings := do
  let found ← CommandLine.variableNames.mapM fun name => do
    return (← IO.getEnv name).map fun value => (name, value)
  let environment := Table.ofList found.reduceOption
  let home := (nonEmpty? (environment.get? "HOME")).map Path.mk
  return ⟨environment, home, ⟨(← IO.currentDir).toString⟩⟩

def finish (around : CommandLine.Surroundings) :
    CommandLine.Ending → FileProgram CommandLine.Output
  | .output o => return o
  | .help => return { stdout := CommandLine.toolGrammar.usage }
  | .misuse => return { stderr := CommandLine.toolGrammar.usage, code := 2 }
  | .shell program arguments => CommandLine.takeOver around program arguments

def run (arguments : List String) : IO UInt32 := do
  let invocation := CommandLine.toolName :: arguments
  let around ← surroundings
  let program := CommandLine.run Yaml.reader around invocation >>= finish around
  let o ← program.interpret perform
  IO.print o.stdout
  IO.eprint o.stderr
  return o.code.toUInt32

end LayeredConfig.Main

def main (arguments : List String) : IO UInt32 :=
  LayeredConfig.Main.run arguments
