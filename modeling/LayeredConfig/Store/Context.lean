import LayeredConfig.Store.Legacy
import LayeredConfig.Store.Operation

/-!
# The context of a run

A run reads its files at most once: the store is loaded when it is first asked for, and the
outcome, a failure too, is kept.
-/

namespace LayeredConfig

structure Context where
  locations : Locations
  environment : Environment
  loaded : Option (Except ConfigError FileStore) := none

namespace Context

def isLoaded (c : Context) : Bool :=
  c.loaded.isSome

/-- The store, loaded now if it was not before. -/
def store (c : Context) (reader : Yaml.Reader) :
    FileProgram (Except ConfigError FileStore × Context) := do
  match c.loaded with
  | some outcome => return (outcome, c)
  | none =>
    let outcome ← (FileStore.load reader c.locations c.environment).run
    return (outcome, { c with loaded := some outcome })

/-! ## The summary for the user -/

/-- The variables that a summary shows. -/
def shownVariables : List String :=
  ["GLAB_CONFIG_DIR", "XDG_CONFIG_HOME", "GLAB_LOG", "GITLAB_HOST", "GITLAB_URI", "GL_HOST",
   "GITLAB_API_HOST", "GITLAB_API_PROTOCOL", "GITLAB_TOKEN", "GITLAB_ACCESS_TOKEN", "OAUTH_TOKEN",
   "GLAB_EDITOR", "VISUAL", "EDITOR", "BROWSER", "GLAMOUR_STYLE", "GLAB_CHECK_UPDATE", "NO_PROMPT"]

def loadedLabel (c : Context) : String :=
  match c.loaded with
  | none => "no"
  | some (.ok _) => "yes"
  | some (.error e) => "failed (" ++ e.message ++ ")"

def variableLines (c : Context) (redact : Bool) : List String :=
  shownVariables.filterMap fun name => do
    let value ← c.environment.get? name
    return "  " ++ name ++ " = " ++ Secret.display redact name value

/-- The resolved paths and the variables that matter to them; secrets are hidden if `redact`. -/
def dump (c : Context) (redact : Bool) : String :=
  String.join (([
    "glab-config context (debug)",
    "===========================",
    "config_dir: " ++ c.locations.configDirectory.text,
    "config_file: " ++ c.locations.mainFile.text,
    "aliases_file: " ++ c.locations.aliasesFile.text,
    "local_file: " ++ c.locations.localFile.text,
    "loaded: " ++ c.loadedLabel,
    "",
    "vars:"] ++ c.variableLines redact).map (· ++ "\n"))

end Context

end LayeredConfig
