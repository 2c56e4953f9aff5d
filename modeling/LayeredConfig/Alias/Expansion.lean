import LayeredConfig.Alias.Words
import LayeredConfig.Settings.Table
import LayeredConfig.Text.Digit
import LayeredConfig.Text.Quoted

/-!
# Alias expansion

The first argument of an invocation may be an alias. An expansion that starts with an exclamation
mark is a command line for the shell. Any other one is a text with placeholders for the arguments
behind the alias, which is split into words after the arguments are filled in.
-/

namespace LayeredConfig.Alias

/-! ## Shell aliases -/

def isShell (expansion : String) : Bool :=
  expansion.toList.head? = some '!'

/-- The command line of a shell alias. -/
def shellBody? (expansion : String) : Option String :=
  match expansion.toList with
  | '!' :: body => some (String.ofList body)
  | _ => none

/-- The shell alias of a command line. -/
def asShell (expansion : String) : String :=
  if isShell expansion then expansion else "!" ++ expansion

/-! ## Placeholders -/

/-- Replaces every occurrence of `pattern`, from left to right. The first `skip` characters belong
to an occurrence that is already replaced. -/
def replaceFrom (pattern replacement : List Char) (skip : Nat) : List Char → List Char
  | [] => []
  | c :: rest =>
    match skip with
    | skip + 1 => replaceFrom pattern replacement skip rest
    | 0 =>
      if pattern.isPrefixOf (c :: rest) then
        replacement ++ replaceFrom pattern replacement (pattern.length - 1) rest
      else c :: replaceFrom pattern replacement 0 rest

def placeholder (index : Nat) : List Char :=
  '$' :: (toString index).toList

/-- Fills the arguments in one after the other, the first one being number `index`. An argument
that finds no dollar sign left is not used. -/
def fill (index : Nat) (text : List Char) : List String → List Char × List String
  | [] => (text, [])
  | argument :: rest =>
    if text.contains '$' then
      fill (index + 1) (replaceFrom (placeholder index) argument.toList 0 text) rest
    else
      let (filled, unused) := fill (index + 1) text rest
      (filled, argument :: unused)

/-- Whether a dollar sign stands before a decimal digit of any script. -/
def hasPlaceholder : List Char → Bool
  | '$' :: c :: rest => Text.isDigit c || hasPlaceholder (c :: rest)
  | _ :: rest => hasPlaceholder rest
  | [] => false

/-! ## Expansion -/

/-- The arguments to go on with, without the program's name. -/
structure Expansion where
  arguments : List String := []
  isShell : Bool := false
deriving DecidableEq, Repr

/-- Why no shell was found. -/
inductive ShellError where
  | notFound
  /-- Neither in the search path nor beside another program that brings one along. -/
  | notBundled
deriving DecidableEq, Repr

def ShellError.message : ShellError → String
  | notFound => "unable to locate sh to execute shell alias with"
  | notBundled => "unable to locate sh to execute the shell alias with. The sh.exe interpreter is typically distributed with Git for Windows."

/-- Why an invocation cannot be expanded. -/
inductive ExpandError where
  | notEnoughArguments (text : String)
  | tokenize (text : String) (cause : WordsError)
  | shell (cause : ShellError)
deriving DecidableEq, Repr

def ExpandError.message : ExpandError → String
  | notEnoughArguments text => "not enough arguments for alias: " ++ text
  | tokenize text cause =>
    "could not parse alias expansion " ++ Text.quote text ++ ": " ++ cause.message
  | shell cause => cause.message

/-- Expands a text that is no shell alias. -/
def expandText (text : String) (arguments : List String) : Except ExpandError Expansion :=
  let (filled, unused) := fill 1 text.toList arguments
  if hasPlaceholder filled then .error (.notEnoughArguments (String.ofList filled))
  else match Words.split (String.ofList filled) with
    | .error cause => .error (.tokenize (String.ofList filled) cause)
    | .ok words => .ok ⟨words ++ unused, false⟩

/-- The arguments that make the shell at `path` run a command line. -/
def shellArguments (path body : String) (arguments : List String) : List String :=
  [path, "-c", body] ++ if arguments.isEmpty then [] else "--" :: arguments

/-- Expands the word behind the program's name when `table` knows it. A shell is looked for only
when the alias needs one. -/
def expandWith {m : Type → Type} [Monad m] (table : Table)
    (findShell : m (Except ShellError String)) (invocation : List String) :
    m (Except ExpandError Expansion) :=
  match invocation with
  | _ :: name :: arguments =>
    match table.get? name with
    | none => pure (.ok ⟨name :: arguments, false⟩)
    | some expansion =>
      match shellBody? expansion with
      | none => pure (expandText expansion arguments)
      | some body => do
        match ← findShell with
        | .error cause => return .error (.shell cause)
        | .ok path => return .ok ⟨shellArguments path body arguments, true⟩
  | _ => pure (.ok {})

def expand (table : Table) (shell : Except ShellError String) (invocation : List String) :
    Except ExpandError Expansion :=
  Id.run (expandWith table (pure shell) invocation)

/-! ## The alias table as a list -/

def padEnd (width : Nat) (text : String) : String :=
  text ++ String.ofList (List.replicate (width - text.length) ' ')

/-- One line per alias, with the names padded to one width. -/
def formatTable (table : Table) : String :=
  let width := (table.names.map String.length).foldl max 0
  String.join (table.entries.map fun (name, expansion) =>
    padEnd (width + 1) name ++ "  " ++ expansion ++ "\n")

end LayeredConfig.Alias
