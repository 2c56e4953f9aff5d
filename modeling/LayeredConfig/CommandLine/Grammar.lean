import LayeredConfig.Alias.CommandTree

/-!
# The grammar of a command line

A command takes flags, options with a value, and positional arguments, or leads to one of its
subcommands. Flags and options start with two dashes and may be given once; behind a lone `--`
everything is positional. Every command answers to `--help`, and every command with subcommands
also to the subcommand `help`, which accepts the names of further subcommands.
-/

namespace LayeredConfig.CommandLine

/-- What one command takes besides subcommands. -/
structure Signature where
  flags : List String := []
  options : List String := []
  positionals : List String := []
  /-- Names that exclude each other. -/
  exclusive : List (String × String) := []
  /-- Whether the command tells its version. -/
  versioned : Bool := false
  needsCommand : Bool := false

/-- What can be written behind the names of a command. -/
def Signature.synopsis (s : Signature) : String :=
  String.join ((s.positionals.map fun name => " <" ++ name ++ ">") ++
    (s.options.map fun name => " [--" ++ name ++ " <" ++ name ++ ">]") ++
    s.flags.map fun name => " [--" ++ name ++ "]")

inductive Grammar where
  | command (name : String) (signature : Signature) (subcommands : List Grammar)

/-- Why no command is to be run. -/
inductive Stop where
  | help
  | version
  /-- The arguments follow no rule of the grammar. -/
  | misuse
deriving DecidableEq, Repr

/-- What was found on a command line. -/
structure Matches where
  /-- The names of the subcommands, outermost first. -/
  commands : List String := []
  flags : List String := []
  options : List (String × String) := []
  values : List String := []
deriving DecidableEq, Repr

namespace Matches

def has (m : Matches) (flag : String) : Bool := m.flags.contains flag

def option (m : Matches) (name : String) : String := (m.options.lookup name).getD ""

def isGiven (m : Matches) (name : String) : Bool :=
  m.has name || (m.options.lookup name).isSome

end Matches

namespace Grammar

def name : Grammar → String
  | command name _ _ => name

def signature : Grammar → Signature
  | command _ signature _ => signature

def subcommands : Grammar → List Grammar
  | command _ _ subcommands => subcommands

mutual

/-- The names of the commands alone. -/
def tree : Grammar → CommandTree
  | command name _ subcommands => .command name [] (trees subcommands)

def trees : List Grammar → List CommandTree
  | [] => []
  | g :: rest => g.tree :: trees rest

end

def find? (g : Grammar) (word : String) : Option Grammar :=
  g.subcommands.find? (·.name == word)

/-! ## Help -/

mutual

/-- One line per command, with the names of the commands above it in front. -/
def synopses (above : String) : Grammar → List String
  | command name signature subcommands =>
    (above ++ name ++ signature.synopsis) :: synopsesOf (above ++ name ++ " ") subcommands

def synopsesOf (above : String) : List Grammar → List String
  | [] => []
  | g :: rest => g.synopses above ++ synopsesOf above rest

end

def usage (g : Grammar) : String :=
  String.join (("Usage:" :: (g.synopses "  ")).map (· ++ "\n"))

/-! ## Arguments -/

/-- What a single argument looks like. -/
inductive Piece where
  | separator
  | long (name : String) (value : Option String)
  | short (letter : Char)
  | word

/-- A lone dash is a word. -/
def piece (argument : String) : Piece :=
  match argument.toList with
  | ['-', '-'] => .separator
  | '-' :: '-' :: rest =>
    let name := String.ofList (rest.takeWhile (· != '='))
    match rest.dropWhile (· != '=') with
    | _ :: value => .long name (some (String.ofList value))
    | [] => .long name none
  | '-' :: letter :: _ => .short letter
  | _ => .word

def isWord (argument : String) : Bool :=
  match piece argument with
  | .word => true
  | _ => false

/-- What the subcommand `help` with the names behind it comes to. -/
def helpOn (g : Grammar) : List String → Stop
  | [] => .help
  | word :: rest =>
    match g.find? word with
    | some sub => sub.helpOn rest
    | none =>
      if word == "help" && !g.subcommands.isEmpty && rest.isEmpty then .help else .misuse

/-- Checks what can only be known at the end of the arguments. -/
def finish (g : Grammar) (m : Matches) : Except Stop Matches :=
  let s := g.signature
  if s.needsCommand then .error .misuse
  else if m.values.length ≠ s.positionals.length then .error .misuse
  else if s.exclusive.any fun (a, b) => m.isGiven a && m.isGiven b then .error .misuse
  else .ok m

/-- Reads the arguments of a command from left to right; the first one that says so decides about
help, version or misuse. -/
def parse (g : Grammar) (m : Matches) (arguments : List String) : Except Stop Matches :=
  match arguments with
  | [] => g.finish m
  | argument :: rest =>
    match g.find? argument, piece argument with
    | some sub, _ => sub.parse { m with commands := m.commands ++ [sub.name] } rest
    | none, .separator =>
      g.finish { m with values := m.values ++ rest }
    | none, .short letter =>
      if letter == 'h' then .error .help
      else if letter == 'V' && g.signature.versioned then .error .version
      else .error .misuse
    | none, .long name value =>
      if name == "help" && value.isNone then .error .help
      else if name == "version" && value.isNone && g.signature.versioned then .error .version
      else if m.isGiven name then .error .misuse
      else if g.signature.flags.contains name && value.isNone then
        g.parse { m with flags := m.flags ++ [name] } rest
      else if g.signature.options.contains name then
        match value, rest with
        | some value, rest => g.parse { m with options := m.options ++ [(name, value)] } rest
        | none, value :: rest =>
          if isWord value then g.parse { m with options := m.options ++ [(name, value)] } rest
          else .error .misuse
        | none, [] => .error .misuse
      else .error .misuse
    | none, .word =>
      if argument == "help" && !g.subcommands.isEmpty then .error (g.helpOn rest)
      else if m.values.length < g.signature.positionals.length then
        g.parse { m with values := m.values ++ [argument] } rest
      else .error .misuse

end Grammar

end LayeredConfig.CommandLine
