import LayeredConfig.Alias.Expansion
import LayeredConfig.Document.Edit
import LayeredConfig.Files.Error
import LayeredConfig.Settings.Key
import LayeredConfig.Yaml.Value

/-!
# Scopes and errors of a store

Besides the global settings and those of hosts a store has two scopes: the aliases and the
settings of the local repository. Here are their names and the errors of all stores.
-/

namespace LayeredConfig

inductive Scope where
  | aliases
  | localSettings
deriving DecidableEq, Repr

namespace Scope

/-- The top-level key under which a scope hangs. -/
def key : Scope → String
  | aliases => "aliases"
  | localSettings => "local"

/-- What an entry of a scope is called. -/
def label : Scope → String
  | aliases => "alias"
  | localSettings => "local setting"

/-- Aliases keep their names; a local setting can be named by any spelling of its key. -/
def normalize : Scope → String → String
  | aliases, name => name
  | localSettings, name => Key.canonical name

end Scope

inductive MigrationFault where
  | decode (cause : Yaml.Error)
  | refused (cause : ShapeError)
  | backup (cause : FileFailure)
deriving DecidableEq, Repr

def MigrationFault.message : MigrationFault → String
  | decode cause => "error decoding legacy format: " ++ cause.message
  | refused cause => cause.message
  | backup cause => cause.message

inductive HostsFault where
  | missing
  | notMapping
deriving DecidableEq, Repr

def HostsFault.message : HostsFault → String
  | missing => "no hosts entry"
  | notMapping => "hosts is not a mapping"

inductive ConfigError where
  | file (cause : FileFailure)
  | notFound (scope : Scope) (name : String)
  | unreadable (path : Path) (cause : SyntaxError)
  | migration (path : Path) (fault : MigrationFault)
  | hosts (fault : HostsFault)
  | shape (cause : ShapeError)
  | noConfigDirectory
deriving DecidableEq, Repr

def ConfigError.message : ConfigError → String
  | file cause => cause.message
  | notFound scope name => scope.label ++ " not found: " ++ name
  | unreadable path cause => "invalid config file " ++ path.text ++ ": " ++ cause.message
  | migration path fault =>
    "failed to migrate legacy config " ++ path.text ++ ": " ++ fault.message
  | hosts fault => "could not parse hosts config: " ++ fault.message
  | shape cause => cause.message
  | noConfigDirectory => "could not determine a config directory (set GLAB_CONFIG_DIR)"

/-- Why an invocation could not be expanded through the aliases of a store. -/
inductive AliasError where
  | config (cause : ConfigError)
  | expansion (cause : Alias.ExpandError)
deriving DecidableEq, Repr

def AliasError.message : AliasError → String
  | config cause => cause.message
  | expansion cause => cause.message

end LayeredConfig
