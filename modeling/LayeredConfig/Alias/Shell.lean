import LayeredConfig.Alias.Expansion
import LayeredConfig.Files.Access

/-!
# The shell of shell aliases

Shell aliases run in the program `sh` of the search path.
-/

namespace LayeredConfig.Alias

def findShell (env : Environment) : FileProgram (Except ShellError String) := do
  match ← Access.findExecutable? env "sh" with
  | some path => return .ok path.text
  | none => return .error .notFound

end LayeredConfig.Alias
