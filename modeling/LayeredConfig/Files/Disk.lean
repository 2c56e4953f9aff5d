import LayeredConfig.Files.Program

/-!
# A model of a disk

A disk holds directories, files and symbolic links at locations, which are lists of names from
the root. A path is resolved to a location step by step; a link on the way is replaced by its
target, at most forty times. Renaming is one step: it puts an entry in the place of another.
-/

namespace LayeredConfig

abbrev Location := List String

inductive FileNode where
  | directory
  | file (contents : ByteArray) (executable : Bool)
  | link (target : Path)

def FileNode.kind : FileNode → FileKind
  | directory => .directory
  | file _ executable => .file executable
  | link _ => .link

def FileNode.isDirectory : FileNode → Bool
  | directory => true
  | _ => false

structure Disk where
  nodes : List (Location × FileNode) := []
  workingDirectory : Location := []

namespace Disk

/-- The root is a directory on every disk. -/
def node? (d : Disk) (location : Location) : Option FileNode :=
  if location = [] then some .directory else d.nodes.lookup location

def insert (d : Disk) (location : Location) (node : FileNode) : Disk :=
  { d with nodes := (d.nodes.filter (·.1 ≠ location)) ++ [(location, node)] }

def erase (d : Disk) (location : Location) : Disk :=
  { d with nodes := d.nodes.filter (·.1 ≠ location) }

/-! ## Resolving paths -/

/-- Where a path leads: to a node, or to a free name in a directory. -/
inductive Place where
  | found (location : Location) (node : FileNode)
  | free (directory : Location) (name : String)

def maxLinks : Nat := 40

def maxNameBytes : Nat := 255

def maxPathBytes : Nat := 4095

/-- Walks along `steps` from a directory. A link in the last place is followed if `follow`. -/
def walk (d : Disk) (follow : Bool) (links : Nat) (directory : Location) (steps : List String) :
    Except FileError Place :=
  match steps with
  | [] => .ok (.found directory .directory)
  | "." :: rest => d.walk follow links directory rest
  | ".." :: rest => d.walk follow links directory.dropLast rest
  | name :: rest =>
    if name.utf8ByteSize > maxNameBytes then .error .nameTooLong
    else match d.node? (directory ++ [name]) with
    | none => if rest.isEmpty then .ok (.free directory name) else .error .notFound
    | some .directory => d.walk follow links (directory ++ [name]) rest
    | some (.file contents executable) =>
      if rest.isEmpty then .ok (.found (directory ++ [name]) (.file contents executable))
      else .error .notDirectory
    | some (.link target) =>
      if rest.isEmpty && !follow then .ok (.found (directory ++ [name]) (.link target))
      else match links with
      | 0 => .error .tooManyLinks
      | links + 1 =>
        d.walk follow links (if target.isAbsolute then [] else directory) (target.steps ++ rest)
termination_by (links, steps.length)

/-- Where the names of a path start. -/
def start (d : Disk) (p : Path) : Location :=
  if p.isAbsolute then [] else d.workingDirectory

/-- Refuses what no path can be. -/
def checkPath (p : Path) : Except FileError Unit :=
  if p.chars.contains '\x00' then .error .nulInName
  else if p.isEmpty then .error .notFound
  else if p.text.utf8ByteSize > maxPathBytes then .error .nameTooLong
  else .ok ()

def resolve (d : Disk) (follow : Bool) (p : Path) : Except FileError Place := do
  checkPath p
  d.walk follow maxLinks (d.start p) p.steps

/-- The node that a path leads to. -/
def lookup (d : Disk) (follow : Bool) (p : Path) : Except FileError (Location × FileNode) := do
  match ← d.resolve follow p with
  | .found location node => return (location, node)
  | .free _ _ => .error .notFound

/-! ## Operations -/

def kind (d : Disk) (follow : Bool) (p : Path) : Except FileError FileKind := do
  return (← d.lookup follow p).2.kind

def read (d : Disk) (p : Path) : Except FileError ByteArray := do
  match ← d.lookup true p with
  | (_, .file contents _) => return contents
  | (_, .directory) => .error .isDirectory
  | (_, .link _) => .error .tooManyLinks

def pathOf (location : Location) : Path :=
  ⟨"/" ++ "/".intercalate location⟩

def locate (d : Disk) (p : Path) : Except FileError Path := do
  return pathOf (← d.lookup true p).1

/-- The name of an entry of a directory that is at a location. -/
def entryName? (directory location : Location) : Option String :=
  if location.dropLast = directory then location.getLast? else none

def list (d : Disk) (p : Path) : Except FileError (List String) := do
  match ← d.lookup true p with
  | (directory, .directory) => return d.nodes.filterMap fun (l, _) => entryName? directory l
  | _ => .error .notDirectory

def createDirectory (d : Disk) (p : Path) : Except FileError Disk := do
  match ← d.resolve false p with
  | .found _ _ => .error .alreadyExists
  | .free directory name => return d.insert (directory ++ [name]) .directory

def create (d : Disk) (p : Path) : Except FileError Disk := do
  match ← d.resolve true p with
  | .found _ _ => .error .alreadyExists
  | .free directory name => return d.insert (directory ++ [name]) (.file ByteArray.empty false)

def temporaryName (number : Nat) : String :=
  ".tmp" ++ toString number

/-- A name for a temporary file that is free in a directory. -/
def freshName (d : Disk) (directory : Location) : String :=
  let numbers := List.range (d.nodes.length + 1)
  match numbers.find? fun n => (d.node? (directory ++ [temporaryName n])).isNone with
  | some n => temporaryName n
  | none => temporaryName (d.nodes.length + 1)

def createTemporary (d : Disk) (p : Path) : Except FileError (Path × Disk) := do
  match ← d.lookup true p with
  | (directory, .directory) =>
    let temporary := p.join (d.freshName directory)
    -- Its own path can be too long where the one of the directory is not.
    match ← d.resolve false temporary with
    | .free parent name => return (temporary, d.insert (parent ++ [name]) (.file ByteArray.empty false))
    | .found _ _ => .error .alreadyExists
  | _ => .error .notDirectory

def write (d : Disk) (p : Path) (contents : ByteArray) : Except FileError Disk := do
  match ← d.lookup true p with
  | (location, .file _ executable) => return d.insert location (.file contents executable)
  | _ => .error .isDirectory

/-- The last name of a path with the directory that holds it. -/
structure EntryPlace where
  directory : Location
  name : String
  /-- A slash at the end admits directories only. -/
  directoryOnly : Bool

def EntryPlace.location (e : EntryPlace) : Location :=
  e.directory ++ [e.name]

/-- The place of the entry that a path names, without a look at the entry itself. -/
def entryPlace (d : Disk) (p : Path) : Except FileError EntryPlace := do
  checkPath p
  match ← d.walk true maxLinks (d.start p) p.names.dropLast with
  | .found directory .directory =>
    let name := p.names.getLast?.getD "."
    if name.utf8ByteSize > maxNameBytes then .error .nameTooLong
    else return ⟨directory, name, p.hasTrailingSlash⟩
  | .found _ _ => .error .notDirectory
  | .free _ _ => .error .notFound

/-- Whether a place is a name that can be renamed. -/
def EntryPlace.isProper (e : EntryPlace) : Bool :=
  e.name != "." && e.name != ".."

def hasChildren (d : Disk) (location : Location) : Bool :=
  d.nodes.any fun (l, _) => location.isPrefixOf l && l != location

/-- Puts the entry at `source`, with all that is below it, in the place of `target`. -/
def move (d : Disk) (source target : Location) : Disk :=
  { d with nodes := (d.nodes.filter (·.1 ≠ target)).map fun (l, node) =>
      if source.isPrefixOf l then (target ++ l.drop source.length, node) else (l, node) }

/-- A target name that no file can have is an invalid argument. -/
def targetPlace (d : Disk) (p : Path) : Except FileError EntryPlace :=
  match d.entryPlace p with
  | .error .nulInName => .error .invalidArgument
  | result => result

def rename (d : Disk) (source target : Path) : Except FileError Disk := do
  let s ← d.entryPlace source
  let t ← d.targetPlace target
  if !s.isProper || !t.isProper then .error .busy
  else match d.node? s.location with
  | none => .error .notFound
  | some node =>
    if !node.isDirectory && (s.directoryOnly || t.directoryOnly) then .error .notDirectory
    else if s.location.isPrefixOf t.directory then .error .invalidArgument
    else if t.location.isPrefixOf s.directory then .error .notEmpty
    else if s.location = t.location then return d
    else match d.node? t.location with
    | none => return d.move s.location t.location
    | some other =>
      if node.isDirectory && !other.isDirectory then .error .notDirectory
      else if !node.isDirectory && other.isDirectory then .error .isDirectory
      else if other.isDirectory && d.hasChildren t.location then .error .notEmpty
      else return d.move s.location t.location

def remove (d : Disk) (p : Path) : Except FileError Disk := do
  match ← d.lookup false p with
  | (_, .directory) => .error .isDirectory
  | (location, _) => return d.erase location

/-- Keeps the disk as it is when an operation fails. -/
def orKeep (d : Disk) (result : Except FileError Disk) : Except FileError Unit × Disk :=
  match result with
  | .ok d => (.ok (), d)
  | .error e => (.error e, d)

/-- The answer of one operation and the disk behind it. -/
def perform (d : Disk) (op : FileOp) : op.Answer × Disk :=
  match op with
  | .kind p => (d.kind true p, d)
  | .entryKind p => (d.kind false p, d)
  | .locate p => (d.locate p, d)
  | .read p => (d.read p, d)
  | .list p => (d.list p, d)
  | .createDirectory p => d.orKeep (d.createDirectory p)
  | .create p => d.orKeep (d.create p)
  | .createTemporary p =>
    match d.createTemporary p with
    | .ok (path, d) => (.ok path, d)
    | .error e => (.error e, d)
  | .write p contents => d.orKeep (d.write p contents)
  | .rename source target => d.orKeep (d.rename source target)
  | .remove p => d.orKeep (d.remove p)

end Disk

/-- Runs a program on a disk. -/
def FileProgram.run {α : Type} (p : FileProgram α) (d : Disk) : α × Disk :=
  match p with
  | done a => (a, d)
  | step op next =>
    let (answer, d) := d.perform op
    (next answer).run d

namespace FileProgram

variable {α β : Type}

@[simp] theorem run_pure (a : α) (d : Disk) : (pure a : FileProgram α).run d = (a, d) := rfl

@[simp] theorem run_bind (p : FileProgram α) (f : α → FileProgram β) (d : Disk) :
    (p >>= f).run d = (f (p.run d).1).run (p.run d).2 := by
  induction p generalizing d with
  | done a => rfl
  | step op next ih => exact ih _ _

@[simp] theorem run_call (op : FileOp) (d : Disk) : (call op).run d = d.perform op := rfl

end FileProgram

end LayeredConfig
