import LayeredConfig.Files.Access
import LayeredConfig.Files.Locations
import LayeredConfig.Store.Error

/-!
# The store in files

The main file, the alias file and the local file are merged into one document, in which the
aliases and the local settings hang under keys of their own. Lookups and edits work on that
document; writing takes it apart again, since the main file leaves those two keys out and each
scope is written from its own mapping.
-/

namespace LayeredConfig

structure FileStore where
  document : Document
  locations : Locations
  environment : Environment

namespace FileStore

variable {α : Type}

/-- File work of a store that can fail. -/
abbrev Load := ExceptT ConfigError FileProgram

def ofFiles (work : ExceptT FileFailure FileProgram α) : Load α :=
  ExceptT.mk do return (← work.run).mapError .file

/-! ## Layers of a setting -/

/-- The mapping of a host, if the document has one. -/
def host? (s : FileStore) (host : String) : Option NodeId := do
  let hosts ← s.document.findEntry? s.document.root "hosts"
  let entry ← s.document.findEntry? hosts.value host
  return entry.value

def hostValue? (s : FileStore) (host key : String) : Option String := do
  s.document.get? (← s.host? host) key

def globalValue? (s : FileStore) (key : String) : Option String :=
  s.document.get? s.document.root key

def localValue? (s : FileStore) (key : String) : Option String := do
  let entry ← s.document.findEntry? s.document.root Scope.localSettings.key
  s.document.get? entry.value key

/-- The value of a setting and the file it comes from, without a look at the environment. -/
def getWithSource (s : FileStore) (host key : String) : String × Path :=
  let key := Key.canonical key
  let hostValue := if host.isEmpty then none else nonEmpty? (s.hostValue? host key)
  match hostValue with
  | some value => (value, s.locations.mainFile)
  | none =>
    match nonEmpty? (s.localValue? key) with
    | some value => (value, s.locations.localFile)
    | none =>
      match nonEmpty? (s.globalValue? key) with
      | some value => (value, s.locations.mainFile)
      | none => (Key.default key, s.locations.mainFile)

/-! ## Edits in memory

An edit that fails at a later step keeps what its earlier steps did. -/

/-- The mapping of a host, made when there is none. -/
def openHost (s : FileStore) (host : String) : Except ShapeError NodeId × FileStore :=
  match s.document.ensureMapping s.document.root "hosts" with
  | .error e => (.error e, s)
  | .ok (d, hosts) =>
    match d.ensureMapping hosts host with
    | .error e => (.error e, { s with document := d })
    | .ok (d, map) => (.ok map, { s with document := d })

/-- Stores a text under a key of a mapping. -/
def setAt (s : FileStore) (map : NodeId) (key value : String) : Except ShapeError Unit × FileStore :=
  match s.document.setText map key value with
  | .error e => (.error e, s)
  | .ok (d, _) => (.ok (), { s with document := d })

/-- Stores a setting of an open host. -/
def hostSet (s : FileStore) (map : NodeId) (key value : String) :
    Except ShapeError Unit × FileStore :=
  s.setAt map (Key.canonical key) value

/-- Stores a global value, or the value of a host when one is named. -/
def set (s : FileStore) (host key value : String) : Except ShapeError Unit × FileStore :=
  let key := Key.canonical key
  if host.isEmpty then s.setAt s.document.root key value
  else match s.openHost host with
  | (.error e, s) => (.error e, s)
  | (.ok map, s) => s.hostSet map key value

/-- The configured hosts, the default one first. -/
def hosts (s : FileStore) : Except HostsFault (List String) :=
  match s.document.findEntry? s.document.root "hosts" with
  | none => .error .missing
  | some entry =>
    if s.document.isMapping entry.value then .ok (orderHosts (s.document.keys entry.value))
    else if s.document.scalar? entry.value = some "" then .ok (orderHosts [])
    else .error .notMapping

def unsetHost (s : FileStore) (host : String) : FileStore :=
  if host.isEmpty then s
  else match s.document.findEntry? s.document.root "hosts" with
  | none => s
  | some hosts =>
    match s.document.removeEntry hosts.value host with
    | none => s
    | some (d, _) => { s with document := d }

/-! ## Writing -/

/-- The text of the main file. -/
def mainText (s : FileStore) : String :=
  s.document.encode s.document.root [Scope.aliases.key, Scope.localSettings.key]

def write (s : FileStore) : Load Unit :=
  ofFiles (Access.writeText s.locations.mainFile s.mainText)

def scopeFile (s : FileStore) : Scope → Path
  | .aliases => s.locations.aliasesFile
  | .localSettings => s.locations.localFile

/-- Writes the mapping of a scope to the file of that scope. -/
def writeScope (s : FileStore) (scope : Scope) (map : NodeId) : Load Unit :=
  ofFiles (Access.writeText (s.scopeFile scope) (s.document.encode map []))

/-! ## Scopes -/

/-- The mapping of a scope, made when there is none. -/
def openScope (s : FileStore) (scope : Scope) : Except ShapeError (FileStore × NodeId) := do
  let (d, map) ← s.document.ensureMapping s.document.root scope.key
  return ({ s with document := d }, map)

def scopeGet? (s : FileStore) (scope : Scope) (map : NodeId) (name : String) : Option String :=
  s.document.get? map (scope.normalize name)

def scopeAll (s : FileStore) (map : NodeId) : Table :=
  ⟨s.document.snapshot map⟩

/-- Stores a value in a scope and writes its file. The value stays when writing fails. -/
def scopeSet (s : FileStore) (scope : Scope) (map : NodeId) (name value : String) :
    FileProgram (Except ConfigError Unit × FileStore) := do
  match s.document.setText map (scope.normalize name) value with
  | .error e => return (.error (.shape e), s)
  | .ok (d, _) =>
    let s := { s with document := d }
    return (← (s.writeScope scope map).run, s)

/-- Removes a value from a scope and writes its file. The value stays away when writing fails. -/
def scopeDelete (s : FileStore) (scope : Scope) (map : NodeId) (name : String) :
    FileProgram (Except ConfigError Unit × FileStore) := do
  match s.document.removeEntry map (scope.normalize name) with
  | none => return (.error (.notFound scope (scope.normalize name)), s)
  | some (d, _) =>
    let s := { s with document := d }
    return (← (s.writeScope scope map).run, s)

end FileStore

end LayeredConfig
