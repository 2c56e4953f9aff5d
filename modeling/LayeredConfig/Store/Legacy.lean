import LayeredConfig.Store.FileStore

/-!
# The old layout

In the old layout every host stood at the top level, with a list whose first item held its
settings. A file counts as old when the default host stands there with a list. Its settings are
stored one by one in the document of a first run; then the old file is renamed, and the new one
is written in its place and read back.
-/

namespace LayeredConfig.Legacy

/-- Whether a text has the old layout. A text that cannot be read has not. -/
def isLegacy (reader : Yaml.Reader) (text : String) : Bool :=
  match reader.value text with
  | .error _ => false
  | .ok value => (value.get? defaultHostname).any Yaml.Value.isSequence

/-- One value to be stored; the host is empty for a global value. -/
structure Assignment where
  host : String
  key : String
  text : String
deriving DecidableEq, Repr

/-- The settings of a host. What is no text with a name is skipped. -/
def hostAssignments (host : String) (settings : List (Yaml.Value × Yaml.Value)) :
    List Assignment :=
  settings.filterMap fun (key, value) => do
    return ⟨host, ← key.string?, ← value.scalarText?⟩

/-- What a top-level entry of an old file stands for. Only the first item of a list counts. -/
def assignments (name : String) (value : Yaml.Value) : List Assignment :=
  match value with
  | .sequence items =>
    match items.head? >>= Yaml.Value.mapping? with
    | some settings => hostAssignments name settings
    | none => []
  | other =>
    match other.scalarText? with
    | some text => [⟨"", name, text⟩]
    | none => []

def store (s : FileStore) : List Assignment → Except ShapeError FileStore
  | [] => .ok s
  | a :: rest =>
    match s.set a.host a.key a.text with
    | (.error e, _) => .error e
    | (.ok (), s) => store s rest

/-- The document that takes the place of an old file. -/
def convert (settings : List (String × Yaml.Value)) (locations : Locations)
    (environment : Environment) : Except ShapeError FileStore :=
  store ⟨Defaults.document, locations, environment⟩
    (settings.flatMap fun (name, value) => assignments name value)

end Legacy

namespace FileStore

/-! ## Loading -/

def readDocument (path : Path) : Load Document := do
  let text ← ofFiles (Access.readText path)
  match Document.parse text with
  | .ok d => return d
  | .error cause => throw (.unreadable path cause)

/-- The answer of some file work, or nothing when it found no file. -/
def unlessMissing {α : Type} (work : Load α) : Load (Option α) :=
  ExceptT.mk do
    match ← work.run with
    | .ok value => return .ok (some value)
    | .error (.file (.notExist _)) => return .ok none
    | .error e => return .error e

def migration {α : Type} (path : Path) (result : Except MigrationFault α) : Load α :=
  ExceptT.mk (pure (result.mapError (.migration path)))

/-- Carries an old main file over and answers the document that then stands in its place. -/
def migrate (reader : Yaml.Reader) (text : String) (locations : Locations)
    (environment : Environment) : Load Document := do
  let path := locations.mainFile
  let settings ← migration path ((reader.settings text).mapError .decode)
  let s ← migration path ((Legacy.convert settings locations environment).mapError .refused)
  let backup ← ExceptT.lift (Access.backUp path locations.backupFile).run
  migration path (backup.mapError .backup)
  s.write
  readDocument path

/-- Carries the main file over if there is one with the old layout. -/
def migrateIfLegacy (reader : Yaml.Reader) (locations : Locations) (environment : Environment) :
    Load (Option Document) := do
  match ← unlessMissing (ofFiles (Access.readText locations.mainFile)) with
  | none => return none
  | some text =>
    if Legacy.isLegacy reader text then
      return some (← migrate reader text locations environment)
    else return none

/-- Reads the main file, which is first written with the defaults when there is none. -/
def readMain (path : Path) : Load Document := do
  match ← unlessMissing (readDocument path) with
  | some d => return d
  | none =>
    ofFiles (Access.writeText path (Defaults.document.encode Defaults.document.root []))
    readDocument path

/-- Hangs the document of a scope's file, if there is such a file, under the key of the scope. -/
def mergeScope (s : FileStore) (scope : Scope) : Load FileStore := do
  match ← unlessMissing (readDocument (s.scopeFile scope)) with
  | none => return s
  | some part =>
    match part.tree? with
    | none => return s
    | some tree =>
      let (d, node) := s.document.addTree tree
      return { s with document := d.spliceValue d.root scope.key node }

/-- The document of the main file, which is carried over or written first when that is needed. -/
def loadMain (reader : Yaml.Reader) (locations : Locations) (environment : Environment) :
    Load Document := do
  match ← migrateIfLegacy reader locations environment with
  | some d => return d
  | none => readMain locations.mainFile

def load (reader : Yaml.Reader) (locations : Locations) (environment : Environment) :
    Load FileStore := do
  let document ← loadMain reader locations environment
  let s ← mergeScope ⟨document, locations, environment⟩ .aliases
  s.mergeScope .localSettings

end FileStore

end LayeredConfig
