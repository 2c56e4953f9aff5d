import LayeredConfig.Files.Program
import LayeredConfig.Settings.Environment

/-!
# Reading and writing whole files

A file is written under a temporary name and then renamed, so that its path holds the old
contents or the new ones and never a part of them. A backup is a rename, and nothing is ever put
in the place of an older backup.
-/

namespace LayeredConfig.Access

/-- An operation whose failure is reported for a path. -/
def attempt (action : FileAction) (path : Path) (op : FileOp) :
    ExceptT FileFailure FileProgram op.Value :=
  ExceptT.mk do
    match ← FileProgram.call op with
    | .ok value => return .ok value
    | .error cause => return .error (.of action path cause)

def isDirectory (path : Path) : FileProgram Bool := do
  match ← FileProgram.call (.kind path) with
  | .ok .directory => return true
  | _ => return false

/-! ## Directories -/

/-- The nearest of some paths that exists has to be a directory. -/
def checkDirectories : List Path → FileProgram (Except FileFailure Unit)
  | [] => return .ok ()
  | path :: rest => do
    match ← FileProgram.call (.kind path) with
    | .ok .directory => return .ok ()
    | .ok _ => return .error (.notDirectory path)
    | .error _ => checkDirectories rest

/-- Fails when something that is no directory stands where `directory` or one above it should. -/
def checkDirectory (directory : Path) : ExceptT FileFailure FileProgram Unit :=
  ExceptT.mk (checkDirectories directory.ancestors)

/-- Creates a directory; the rest of the list holds those that it needs above it. -/
def createDirectories : List Path → FileProgram (Except FileError Unit)
  | [] => return .ok ()
  | path :: above => do
    if path.isEmpty then return .ok ()
    match ← FileProgram.call (.createDirectory path) with
    | .ok () => return .ok ()
    | .error .notFound =>
      match ← createDirectories above with
      | .error cause => return .error cause
      | .ok () =>
        match ← FileProgram.call (.createDirectory path) with
        | .ok () => return .ok ()
        | .error cause => return if ← isDirectory path then .ok () else .error cause
    | .error cause => return if ← isDirectory path then .ok () else .error cause

/-! ## Files -/

def readText (path : Path) : ExceptT FileFailure FileProgram String := do
  checkDirectory path.directory
  let bytes ← attempt .read path (.read path)
  match String.fromUTF8? bytes with
  | some text => return text
  | none => throw (.failed .read path .invalidText)

/-- Fills a temporary file and puts it in the place of `path`; it is removed when that fails. -/
def fillAndReplace (path temporary : Path) (contents : String) :
    ExceptT FileFailure FileProgram Unit :=
  ExceptT.mk do
    let result ← (do
      attempt .write path (.write temporary contents.toUTF8)
      attempt .replace path (.rename temporary path) : ExceptT FileFailure FileProgram Unit).run
    match result with
    | .ok () => return .ok ()
    | .error failure =>
      let _ ← FileProgram.call (.remove temporary)
      return .error failure

def writeText (path : Path) (contents : String) : ExceptT FileFailure FileProgram Unit := do
  let directory := path.directory
  checkDirectory directory
  match ← ExceptT.lift (createDirectories directory.ancestors) with
  | .error cause => throw (.of .createDirectory directory cause)
  | .ok () =>
    let temporary ← attempt .createTemporary directory (.createTemporary directory)
    fillAndReplace path temporary contents

def backUp (path backup : Path) : ExceptT FileFailure FileProgram Unit := do
  match ← ExceptT.lift (FileProgram.call (.entryKind backup)) with
  | .ok _ => throw (.failed .backUp path (.occupied backup))
  | .error .nulInName => throw (.failed .backUp path .nulInName)
  | .error _ => attempt .backUp path (.rename path backup)

/-! ## Searching -/

/-- The first of some paths below which `name` exists. -/
def firstHolding? (name : String) : List Path → FileProgram (Option Path)
  | [] => return none
  | path :: rest => do
    match ← FileProgram.call (.kind (path.join name)) with
    | .ok _ => return some path
    | .error _ => firstHolding? name rest

/-- The nearest directory from `path` upwards that holds a repository, else `path` itself. -/
def repositoryRoot (path : Path) : FileProgram Path := do
  return (← firstHolding? ".git" path.ancestors).getD path

def isExecutable (path : Path) : FileProgram Bool := do
  match ← FileProgram.call (.kind path) with
  | .ok (.file true) => return true
  | _ => return false

def firstExecutable? : List Path → FileProgram (Option Path)
  | [] => return none
  | path :: rest => do
    if ← isExecutable path then return some path else firstExecutable? rest

/-- The parts of a text between colons that are not empty. -/
def searchPath (text : String) : List Path :=
  ((text.splitOn ":").filter fun part => !part.isEmpty).map fun part => ⟨part⟩

/-- The file that a command runs: the command itself if it is a path, else the first match in the
directories of the search path. -/
def findExecutable? (env : Environment) (command : String) : FileProgram (Option Path) :=
  if command.toList.any fun c => c == '/' || c == '\\' then firstExecutable? [⟨command⟩]
  else match env.get? "PATH" <|> env.get? "Path" with
  | none => return none
  | some text => firstExecutable? ((searchPath text).map (·.join command))

end LayeredConfig.Access
