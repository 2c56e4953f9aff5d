import LayeredConfig.Alias.Expansion

/-!
# Command trees and alias definitions

A command has a name, other names and subcommands. An alias may not have the name of a command,
and unless it is a shell alias its expansion has to start with a command.
-/

namespace LayeredConfig

inductive CommandTree where
  | command (name : String) (aliases : List String) (subcommands : List CommandTree)

namespace CommandTree

def name : CommandTree → String
  | command name _ _ => name

def subcommands : CommandTree → List CommandTree
  | command _ _ subcommands => subcommands

def answersTo (token : String) : CommandTree → Bool
  | command name aliases _ => name == token || aliases.contains token

def find? (tree : CommandTree) (token : String) : Option CommandTree :=
  tree.subcommands.find? (answersTo token)

/-- How far a list of tokens leads into a tree. -/
structure Traversal where
  /-- The names of the subcommands, outermost first. -/
  matched : List String := []
  remaining : List String := []
deriving DecidableEq, Repr

def Traversal.foundCommand (t : Traversal) : Bool :=
  !t.matched.isEmpty

def traverse (tree : CommandTree) : List String → Traversal
  | [] => {}
  | token :: rest =>
    match tree.find? token with
    | none => { remaining := token :: rest }
    | some sub =>
      let t := traverse sub rest
      { t with matched := sub.name :: t.matched }

end CommandTree

namespace Alias

inductive DefinitionError where
  | commandCollision (name : String)
  | unknownCommand (expansion : String)
  | tokenize (cause : WordsError)
deriving DecidableEq, Repr

def DefinitionError.message : DefinitionError → String
  | commandCollision name =>
    "could not create alias: " ++ Text.quote name ++ " is already a command"
  | unknownCommand expansion =>
    "could not create alias: " ++ expansion ++ " does not correspond to a command"
  | tokenize cause => "could not create alias: " ++ cause.message

def checkDefinition (tree : CommandTree) (name expansion : String) :
    Except DefinitionError Unit :=
  if (tree.traverse [name]).foundCommand then .error (.commandCollision name)
  else if isShell expansion then .ok ()
  else match Words.split expansion with
    | .error cause => .error (.tokenize cause)
    | .ok words =>
      if (tree.traverse words).foundCommand then .ok () else .error (.unknownCommand expansion)

end Alias

end LayeredConfig
