import LayeredConfig.Alias.Shell
import LayeredConfig.CommandLine.Failure
import LayeredConfig.CommandLine.Request
import LayeredConfig.Shell.Evaluation
import LayeredConfig.Store.Context
import LayeredConfig.Text.Json

/-!
# A run of the tool

A run finds its files, loads the store, expands the invocation through the aliases and then does
what is asked for. It ends with texts for the user and an exit code, or with a shell that is to
take over.
-/

namespace LayeredConfig.CommandLine

/-- What a run leaves to the user. -/
structure Output where
  stdout : String := ""
  stderr : String := ""
  code : Nat := 0
deriving DecidableEq, Repr

namespace Output

def ofLines (lines : List String) : Output :=
  { stdout := String.join (lines.map (· ++ "\n")) }

/-- A line that is no result. -/
def note (text : String) : Output :=
  { stderr := text ++ "\n" }

def ofFailure (f : Failure) : Output :=
  { stderr := f.report, code := 1 }

end Output

inductive Ending where
  | output (o : Output)
  | help
  | misuse
  | shell (program : String) (arguments : List String)
deriving DecidableEq, Repr

/-- Work on the store that ends with output. -/
abbrev Work := ExceptT Failure FileProgram

def Work.output (work : Work Output) : FileProgram Output := do
  match ← work.run with
  | .ok o => return o
  | .error f => return Output.ofFailure f

def orFail {ε α : Type} (f : ε → Failure) (result : Except ε α) : Work α :=
  ExceptT.mk (pure (result.mapError f))

/-- Carries out file work of a store. -/
def store {α : Type} (work : FileStore.Load α) : Work α :=
  ExceptT.mk do return (← work.run).mapError Failure.ofConfig

/-! ## Settings -/

/-- The variable that decides about a key, if one is set. -/
def decidingVariable? (env : Environment) (key : String) : Option String :=
  (Key.variableNames key).find? fun name => (env.firstNonEmpty? [name]).isSome

/-- Where the value of a key comes from: a variable or a file. -/
def valueSource (s : FileStore) (host key : String) : String :=
  match decidingVariable? s.environment key with
  | some name => "$" ++ name
  | none => (s.getWithSource host key).2.text

/-- A value with its key and its source. -/
def describe (s : FileStore) (host key : String) : String :=
  Json.object [("key", key), ("value", s.get host key), ("source", valueSource s host key)]

/-- One line per known setting; secrets are hidden if `redact`. -/
def settingLines (s : FileStore) (host : String) (redact : Bool) : List String :=
  Key.names.map fun key => key ++ "=" ++ Secret.display redact key (s.get host key)

def write (s : FileStore) : Work Unit :=
  ExceptT.mk do
    return (← s.write.run).mapError fun e =>
      (Failure.ofConfig e).because "failed to write config"

def runConfig (s : FileStore) : ConfigRequest → Work Output
  | .get key host json =>
    return .ofLines [if json then describe s host key else s.get host key]
  | .set key value host => do
    let (result, s) := s.set host key value
    orFail (Failure.ofConfig ∘ .shape) result
    write s
    return {}
  | .setLocal key value => do
    let (s, map) ← orFail (Failure.ofConfig ∘ .shape) (s.openScope .localSettings)
    store (ExceptT.mk do return (← s.scopeSet .localSettings map key value).1)
    return {}
  | .list host showSecrets => return .ofLines (settingLines s host !showSecrets)
  | .hosts => return .ofLines (← orFail (Failure.ofConfig ∘ .hosts) s.hosts)
  | .unsetHost host => do
    write (s.unsetHost host)
    return {}

/-! ## Aliases -/

def runAlias (s : FileStore) (request : AliasRequest) : Work Output := do
  match request with
  | .set name expansion shell =>
    let expansion := if shell then Alias.asShell expansion else expansion
    orFail Failure.ofDefinition (Alias.checkDefinition toolGrammar.tree name expansion)
    let (s, map) ← orFail (Failure.ofConfig ∘ .shape) (s.openScope .aliases)
    let verb := if (s.scopeGet? .aliases map name).isSome then "Changed" else "Added"
    store (ExceptT.mk do return (← s.scopeSet .aliases map name expansion).1)
    return .note (verb ++ " alias " ++ name ++ ": " ++ expansion)
  | .delete name =>
    let (s, map) ← orFail (Failure.ofConfig ∘ .shape) (s.openScope .aliases)
    let expansion := (s.scopeGet? .aliases map name).getD ""
    store (ExceptT.mk do return (← s.scopeDelete .aliases map name).1)
    return .note ("Deleted alias " ++ name ++ "; was " ++ expansion)
  | .list json =>
    let (s, map) ← orFail (Failure.ofConfig ∘ .shape) (s.openScope .aliases)
    let table := s.scopeAll map
    if json then return .ofLines [Json.object table.entries]
    else if table.isEmpty then return .note "no aliases configured"
    else return { stdout := Alias.formatTable table }

/-! ## The whole run -/

def perform (context : Context) (s : FileStore) : Request → Work Output
  | .dump redact => return { stdout := context.dump redact }
  | .config request => runConfig s request
  | .aliases request => runAlias s request

/-- Goes on with the arguments behind the tool's name after they are expanded. -/
def conclude (context : Context) (s : FileStore) (arguments : List String) :
    FileProgram Ending := do
  match Request.parse arguments with
  | .ok request => return .output (← (perform context s request).output)
  | .error .help => return .help
  | .error .version => return .output (.ofLines [toolName ++ " " ++ toolVersion])
  | .error .misuse => return .misuse

/-- What a run knows of its surroundings. -/
structure Surroundings where
  environment : Environment
  home : Option Path
  workingDirectory : Path

/-- The variables that a run looks at. -/
def variableNames : List String :=
  "HOME" :: "PATH" :: "Path" :: Context.shownVariables

/-- The files of a run. -/
def locate (around : Surroundings) : Work Locations := do
  match Locations.configDirectory? around.environment around.home with
  | none =>
    throw ((Failure.ofConfig .noConfigDirectory).because "could not resolve config paths")
  | some directory =>
    return .ofRepository directory (← ExceptT.lift (Access.repositoryRoot around.workingDirectory))

/-- The store of a run, with the invocation expanded through its aliases. -/
def prepare (reader : Yaml.Reader) (around : Surroundings) (invocation : List String) :
    Work (Context × FileStore × Alias.Expansion) := do
  let locations ← locate around
  let context : Context := { locations, environment := around.environment }
  let (outcome, context) ← ExceptT.lift (context.store reader)
  let s ← orFail (fun e => (Failure.ofConfig e).because "failed to load config") outcome
  let (expansion, s) ← ExceptT.lift (s.expand (Alias.findShell around.environment) invocation)
  return (context, s, ← orFail Failure.ofAlias expansion)

/-- Runs the tool; the first word of the invocation is the tool's own name. -/
def run (reader : Yaml.Reader) (around : Surroundings) (invocation : List String) :
    FileProgram Ending := do
  match ← (prepare reader around invocation).run with
  | .error f => return .output (.ofFailure f)
  | .ok (context, s, ⟨arguments, false⟩) => conclude context s arguments
  | .ok (_, _, ⟨program :: arguments, true⟩) => return .shell program arguments
  | .ok (_, _, ⟨[], true⟩) => return .output {}

/-! ## Taking over -/

/-- What a run comes to when the shell that is to take over cannot be started. -/
def cannotStart (program : String) (cause : FileError) : Output :=
  .ofFailure ((⟨cause.message, []⟩ : Failure).because ("failed to run " ++ program))

/-- A shell that a signal ended counts as one that failed. -/
def Output.ofShell (outcome : Shell.Outcome) : Output :=
  { stdout := outcome.stdout
    stderr := outcome.stderr
    code := match outcome.ending with
      | .exited status => status
      | .killed _ => 1 }

/-- Lets a shell take over. -/
def takeOver (around : Surroundings) (program : String) (arguments : List String) :
    FileProgram Output := do
  let launch : Launch := ⟨around.workingDirectory, ⟨program⟩, program :: arguments⟩
  match ← Shell.run around.environment.entries launch with
  | .error cause => return cannotStart program cause
  | .ok outcome => return .ofShell outcome

end LayeredConfig.CommandLine
