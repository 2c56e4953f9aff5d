import LayeredConfig.Files.Path
import LayeredConfig.Settings.Environment
import LayeredConfig.Text.Blank

/-!
# Where the files are

The main file and the alias file lie in the user's configuration directory, the local file in the
repository. An old main file is kept beside the new one under a name of its own.
-/

namespace LayeredConfig

structure Locations where
  configDirectory : Path
  localDirectory : Path
deriving DecidableEq, Repr

namespace Locations

def ofRepository (configDirectory repository : Path) : Locations :=
  ⟨configDirectory, (repository.join ".glab-cli").join "config"⟩

def mainFile (l : Locations) : Path :=
  l.configDirectory.join "config.yml"

def aliasesFile (l : Locations) : Path :=
  l.configDirectory.join "aliases.yml"

def localFile (l : Locations) : Path :=
  l.localDirectory.join "config.yml"

def backupFile (l : Locations) : Path :=
  ⟨l.mainFile.text ++ ".bak"⟩

/-- A variable without white space around it, if anything is left. -/
def trimmed? (env : Environment) (name : String) : Option String := do
  let text := String.ofList (Text.trim (← env.get? name).toList)
  if text.isEmpty then none else some text

/-- The configuration directory: a variable of its own, the common one for all programs, or a
place below the home directory. -/
def configDirectory? (env : Environment) (home : Option Path) : Option Path :=
  match trimmed? env "GLAB_CONFIG_DIR" with
  | some directory => some ⟨directory⟩
  | none =>
    match trimmed? env "XDG_CONFIG_HOME" with
    | some directory => some ((⟨directory⟩ : Path).join "glab-cli")
    | none => home.map fun home => (home.join ".config").join "glab-cli"

end Locations

end LayeredConfig
