import LayeredConfig.Settings.Environment
import LayeredConfig.Store.Error

/-!
# The store in memory

The same layers as in the files, kept in tables. There are no hosts at all until the first host
setting is stored; after that there are hosts, even when the last one is removed.
-/

namespace LayeredConfig

structure MemoryStore where
  environment : Environment
  globals : Table := {}
  hostSettings : Option (List (String × Table)) := none
  aliases : Table := {}
  localSettings : Table := {}

namespace MemoryStore

/-- What is reported as the source of every value. -/
def source : Path := ⟨"<memory>"⟩

def hostValue? (s : MemoryStore) (host key : String) : Option String := do
  let settings ← (← s.hostSettings).lookup host
  settings.get? key

def getWithSource (s : MemoryStore) (host key : String) : String × Path :=
  let key := Key.canonical key
  let hostValue := if host.isEmpty then none else nonEmpty? (s.hostValue? host key)
  let value := hostValue <|> nonEmpty? (s.localSettings.get? key) <|> nonEmpty? (s.globals.get? key)
  (value.getD (Key.default key), source)

/-- Stores a value of a host, which comes last when it is new. -/
def setHost (hosts : List (String × Table)) (host key value : String) : List (String × Table) :=
  if hosts.any (·.1 == host) then
    hosts.map fun (name, settings) =>
      if name = host then (name, settings.insert key value) else (name, settings)
  else hosts ++ [(host, ({} : Table).insert key value)]

def set (s : MemoryStore) (host key value : String) : MemoryStore :=
  let key := Key.canonical key
  if host.isEmpty then { s with globals := s.globals.insert key value }
  else { s with hostSettings := some (setHost (s.hostSettings.getD []) host key value) }

def hosts (s : MemoryStore) : Except HostsFault (List String) :=
  match s.hostSettings with
  | none => .error .missing
  | some hosts => .ok (orderHosts (hosts.map (·.1)))

def unsetHost (s : MemoryStore) (host : String) : MemoryStore :=
  { s with hostSettings := s.hostSettings.map fun hosts => hosts.filter (·.1 ≠ host) }

def scopeTable (s : MemoryStore) : Scope → Table
  | .aliases => s.aliases
  | .localSettings => s.localSettings

def setScopeTable (s : MemoryStore) (scope : Scope) (t : Table) : MemoryStore :=
  match scope with
  | .aliases => { s with aliases := t }
  | .localSettings => { s with localSettings := t }

def scopeGet? (s : MemoryStore) (scope : Scope) (name : String) : Option String :=
  (s.scopeTable scope).get? (scope.normalize name)

def scopeSet (s : MemoryStore) (scope : Scope) (name value : String) : MemoryStore :=
  s.setScopeTable scope ((s.scopeTable scope).insert (scope.normalize name) value)

def scopeDelete (s : MemoryStore) (scope : Scope) (name : String) :
    Except ConfigError MemoryStore :=
  let name := scope.normalize name
  if (s.scopeTable scope).contains name then
    .ok (s.setScopeTable scope ((s.scopeTable scope).erase name))
  else .error (.notFound scope name)

end MemoryStore

end LayeredConfig
