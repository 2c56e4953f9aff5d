import LayeredConfig.Store.FileStore
import LayeredConfig.Store.MemoryStore

/-!
# Operations of a store

What can be asked of any store, as data. Each kind of store carries an operation out in its own
way and answers in the same terms.
-/

namespace LayeredConfig

inductive ScopeOperation where
  | get (name : String)
  | set (name value : String)
  | delete (name : String)
  | all
  | write
deriving DecidableEq, Repr

inductive Operation where
  | get (host key : String)
  | getWithSource (host key : String)
  | set (host key value : String)
  | hosts
  | unsetHost (host : String)
  | write
  | writeAll
  | expand (invocation : List String)
  | scope (scope : Scope) (operation : ScopeOperation)
deriving DecidableEq, Repr

inductive Answer where
  | done
  | text (value : String)
  | sourced (value : String) (source : Path)
  | names (names : List String)
  | found (value : Option String)
  | table (t : Table)
  | expansion (e : Alias.Expansion)
deriving DecidableEq, Repr

abbrev Result := Except AliasError Answer

/-- Looks a shell up when an alias needs one. -/
abbrev ShellFinder := FileProgram (Except Alias.ShellError String)

def Result.ofConfig {α : Type} (f : α → Answer) (result : Except ConfigError α) : Result :=
  match result with
  | .ok value => .ok (f value)
  | .error e => .error (.config e)

def Result.ofShape {α : Type} (f : α → Answer) (result : Except ShapeError α) : Result :=
  Result.ofConfig f (result.mapError .shape)

def Result.done (result : Except ConfigError Unit) : Result :=
  Result.ofConfig (fun _ => .done) result

/-- The value of a setting: an environment variable if one is set, else what the store holds. -/
def effectiveValue (env : Environment) (key stored : String) : String :=
  (env.firstNonEmpty? (Key.variableNames (Key.canonical key))).getD stored

namespace FileStore

def get (s : FileStore) (host key : String) : String :=
  effectiveValue s.environment key (s.getWithSource host (Key.canonical key)).1

/-- Writes the main file, then the alias file. -/
def writeAll (s : FileStore) : FileProgram (Except ConfigError Unit × FileStore) := do
  match ← s.write.run with
  | .error e => return (.error e, s)
  | .ok () =>
    match s.openScope .aliases with
    | .error e => return (.error (.shape e), s)
    | .ok (s, map) => return (← (s.writeScope .aliases map).run, s)

/-- Expands an invocation through the aliases. -/
def expand (s : FileStore) (findShell : ShellFinder) (invocation : List String) :
    FileProgram (Except AliasError Alias.Expansion × FileStore) := do
  match s.openScope .aliases with
  | .error e => return (.error (.config (.shape e)), s)
  | .ok (s, map) =>
    let result ← Alias.expandWith (s.scopeAll map) findShell invocation
    return (result.mapError .expansion, s)

/-- Carries out an operation on an open scope. -/
def performScope (s : FileStore) (scope : Scope) (map : NodeId) :
    ScopeOperation → FileProgram (Result × FileStore)
  | .get name => return (.ok (.found (s.scopeGet? scope map name)), s)
  | .set name value => do
    let (result, s) ← s.scopeSet scope map name value
    return (Result.done result, s)
  | .delete name => do
    let (result, s) ← s.scopeDelete scope map name
    return (Result.done result, s)
  | .all => return (.ok (.table (s.scopeAll map)), s)
  | .write => return (Result.done (← (s.writeScope scope map).run), s)

def perform (s : FileStore) (findShell : ShellFinder) :
    Operation → FileProgram (Result × FileStore)
  | .get host key => return (.ok (.text (s.get host key)), s)
  | .getWithSource host key =>
    let (value, source) := s.getWithSource host key
    return (.ok (.sourced value source), s)
  | .set host key value =>
    let (result, s) := s.set host key value
    return (Result.ofShape (fun _ => .done) result, s)
  | .hosts => return (Result.ofConfig .names (s.hosts.mapError .hosts), s)
  | .unsetHost host => return (.ok .done, s.unsetHost host)
  | .write => return (Result.done (← s.write.run), s)
  | .writeAll => do
    let (result, s) ← s.writeAll
    return (Result.done result, s)
  | .expand invocation => do
    let (result, s) ← s.expand findShell invocation
    return (result.map .expansion, s)
  | .scope scope operation =>
    match s.openScope scope with
    | .error e => return (.error (.config (.shape e)), s)
    | .ok (s, map) => s.performScope scope map operation

end FileStore

namespace MemoryStore

def get (s : MemoryStore) (host key : String) : String :=
  effectiveValue s.environment key (s.getWithSource host (Key.canonical key)).1

def expand (s : MemoryStore) (findShell : ShellFinder) (invocation : List String) :
    FileProgram (Except AliasError Alias.Expansion) := do
  return (← Alias.expandWith s.aliases findShell invocation).mapError .expansion

def performScope (s : MemoryStore) (scope : Scope) : ScopeOperation → Result × MemoryStore
  | .get name => (.ok (.found (s.scopeGet? scope name)), s)
  | .set name value => (.ok .done, s.scopeSet scope name value)
  | .delete name =>
    match s.scopeDelete scope name with
    | .ok s => (.ok .done, s)
    | .error e => (.error (.config e), s)
  | .all => (.ok (.table (s.scopeTable scope)), s)
  | .write => (.ok .done, s)

def perform (s : MemoryStore) (findShell : ShellFinder) :
    Operation → FileProgram (Result × MemoryStore)
  | .get host key => return (.ok (.text (s.get host key)), s)
  | .getWithSource host key =>
    let (value, source) := s.getWithSource host key
    return (.ok (.sourced value source), s)
  | .set host key value => return (.ok .done, s.set host key value)
  | .hosts => return (Result.ofConfig .names (s.hosts.mapError .hosts), s)
  | .unsetHost host => return (.ok .done, s.unsetHost host)
  | .write => return (.ok .done, s)
  | .writeAll => return (.ok .done, s)
  | .expand invocation => return ((← s.expand findShell invocation).map .expansion, s)
  | .scope scope operation => return s.performScope scope operation

end MemoryStore

end LayeredConfig
