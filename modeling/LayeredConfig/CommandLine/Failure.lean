import LayeredConfig.Alias.CommandTree
import LayeredConfig.Store.Error

/-!
# Failures of a run

What went wrong, with its causes from the outermost to the innermost, and how that is told.
-/

namespace LayeredConfig.CommandLine

structure Failure where
  message : String
  causes : List String := []
deriving DecidableEq, Repr

namespace Failure

/-- The same failure as the cause of what could not be done. -/
def because (f : Failure) (message : String) : Failure :=
  ⟨message, f.message :: f.causes⟩

/-! ## Failures of the parts -/

def ofConfig (e : ConfigError) : Failure :=
  match e with
  | .unreadable _ cause => ⟨e.message, [cause.message]⟩
  | _ => ⟨e.message, []⟩

def ofExpand (e : Alias.ExpandError) : Failure :=
  match e with
  | .tokenize _ cause => ⟨e.message, [cause.message]⟩
  | _ => ⟨e.message, []⟩

def ofAlias : AliasError → Failure
  | .config cause => ofConfig cause
  | .expansion cause => ofExpand cause

def ofDefinition (e : Alias.DefinitionError) : Failure :=
  match e with
  | .tokenize cause => ⟨e.message, [cause.message]⟩
  | _ => ⟨e.message, []⟩

/-! ## Text -/

/-- Puts `indentation` behind every line end. -/
def indent (indentation text : String) : String :=
  ("\n" ++ indentation).intercalate (text.splitOn "\n")

/-- A number that ends in the fifth column. -/
def numberLabel (n : Nat) : String :=
  let digits := toString n
  String.ofList (List.replicate (5 - digits.length) ' ') ++ digits ++ ": "

def causeLines : List String → List String
  | [] => []
  | [cause] => ["    " ++ indent "    " cause]
  | causes => causes.zipIdx.map fun (cause, n) => numberLabel n ++ indent "       " cause

/-- The failure for the user. Causes are numbered when there are several. -/
def report (f : Failure) : String :=
  let causes := if f.causes.isEmpty then [] else ["", "Caused by:"] ++ causeLines f.causes
  "Error: " ++ "\n".intercalate (f.message :: causes) ++ "\n"

end Failure

end LayeredConfig.CommandLine
