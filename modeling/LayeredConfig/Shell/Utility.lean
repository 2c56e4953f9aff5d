import LayeredConfig.Shell.Builtin

/-!
# Utilities

Small programs that every system has beside its shell. They get the name that they run under, for
their messages, and their arguments.
-/

namespace LayeredConfig.Shell.Utility

open Act

def complain (name text : String) : Act Unit :=
  discard (write 2 (name ++ ": " ++ text ++ "\n").toUTF8)

/-- Whether a path in a message is written between quotes, lest it be taken for something else. -/
def needsQuotes (path : String) : Bool :=
  path.isEmpty || path == "\x7b" || path == "\x7d"
    || path.toList.head?.any "#~".toList.contains
    || path.toList.any " !\"$&'()*;<=>?[^\x60|\\\n\t".toList.contains

def shown (path : String) : String :=
  if !needsQuotes path then path
  else if path.toList.contains '\'' && !path.toList.any "\"$\x60\\!".toList.contains then
    "\"" ++ path ++ "\""
  else "'" ++ "'\\''".intercalate (path.splitOn "'") ++ "'"

/-- Does something for each argument; the status tells whether all went well. -/
def each (arguments : List String) (work : String → Act Bool) : Act Nat := do
  let results ← arguments.mapM work
  return if results.all id then 0 else 1

/-- The letters of options, and the other arguments. -/
def splitOptions (arguments : List String) : List Char × List String :=
  let isOption (a : String) : Bool := a.length > 1 && a.toList.head? == some '-'
  let options := arguments.takeWhile fun a => isOption a && a != "--"
  let rest := arguments.drop options.length
  (options.flatMap fun a => a.toList.drop 1, if rest.head? == some "--" then rest.drop 1 else rest)

/-! ## Texts -/

/-- The contents of a file, or what is left to read for a minus sign. -/
def contentsOf (name path : String) : Act (Option ByteArray) := do
  if path == "-" then return some (← takeAll 0)
  match ← readFile (← resolve path) with
  | .ok contents => return some contents
  | .error e =>
    complain name (shown path ++ ": " ++ e.text)
    return none

def cat (name : String) (arguments : List String) : Act Nat := do
  let (_, paths) := splitOptions arguments
  each (if paths.isEmpty then ["-"] else paths) fun path => do
    match ← contentsOf name path with
    | some contents =>
      put contents
      return true
    | none => return false

def linesOf (contents : ByteArray) : List String :=
  let lines := (decode contents).splitOn "\n"
  if lines.getLast? == some "" then lines.dropLast else lines

def sort (name : String) (arguments : List String) : Act Nat := do
  let (letters, paths) := splitOptions arguments
  let contents ← (if paths.isEmpty then ["-"] else paths).mapM (contentsOf name)
  let lines := (contents.flatMap fun c => (c.map linesOf).getD []).mergeSort fun a b => a ≤ b
  let lines := if letters.contains 'u' then lines.eraseDups else lines
  let lines := if letters.contains 'r' then lines.reverse else lines
  lines.forM fun line => say (line ++ "\n")
  return if contents.all Option.isSome then 0 else 2

/-- Writes arguments as they are. -/
def echo (_ : String) (arguments : List String) : Act Nat := do
  let (arguments, ending) := match arguments with
    | "-n" :: rest => (rest, "")
    | all => (all, "\n")
  say (" ".intercalate arguments ++ ending)
  return 0

/-! ## Files -/

def touch (name : String) (arguments : List String) : Act Nat := do
  each (splitOptions arguments).2 fun path => do
    let p ← resolve path
    match ← fileKind p with
    | .ok _ => return true
    | .error _ =>
      match ← createFile p with
      | .ok () => return true
      | .error e =>
        complain name ("cannot touch '" ++ path ++ "': " ++ e.text)
        return false

def makeDirectory (name : String) (arguments : List String) : Act Nat := do
  each (splitOptions arguments).2 fun path => do
    match ← call (.createDirectory (← resolve path)) with
    | .ok _ => return true
    | .error e =>
      complain name ("cannot create directory '" ++ path ++ "': " ++ FileError.text e)
      return false

def remove (name : String) (arguments : List String) : Act Nat := do
  let (letters, paths) := splitOptions arguments
  each paths fun path => do
    match ← call (.remove (← resolve path)) with
    | .ok _ => return true
    | .error e =>
      if e == FileError.notFound && letters.contains 'f' then return true
      complain name ("cannot remove '" ++ path ++ "': " ++ FileError.text e)
      return false

/-- Writes the names in directories, one in a line. -/
def list (name : String) (arguments : List String) : Act Nat := do
  let (letters, paths) := splitOptions arguments
  let all := letters.contains 'a' || letters.contains 'A'
  let paths := if paths.isEmpty then ["."] else paths
  let results ← paths.mapM fun path => do
    let p ← resolve path
    match ← fileKind p with
    | .error e =>
      complain name ("cannot access '" ++ path ++ "': " ++ e.text)
      return false
    | .ok .directory =>
      let names := ((← namesBelow p).toOption.getD []).filter fun n =>
        all || n.toList.head? != some '.'
      if paths.length > 1 then say (path ++ ":\n")
      (names.mergeSort fun a b => a ≤ b).forM fun n => say (n ++ "\n")
      return true
    | .ok _ =>
      say (path ++ "\n")
      return true
  return if results.all id then 0 else 2

/-! ## Surroundings -/

def printVariables (_ : String) (names : List String) : Act Nat := do
  let all ← environment
  if names.isEmpty then
    all.forM fun (name, value) => say (name ++ "=" ++ value ++ "\n")
    return 0
  each names fun name => do
    match all.lookup name with
    | some value =>
      say (value ++ "\n")
      return true
    | none => return false

/-! ## The table -/

def table : List (String × (String → List String → Act Nat)) :=
  [("cat", cat), ("sort", sort), ("echo", echo), ("touch", touch), ("mkdir", makeDirectory),
   ("rm", remove), ("ls", list), ("printenv", printVariables), ("true", fun _ _ => return 0),
   ("false", fun _ _ => return 1), ("sleep", fun _ _ => return 0),
   ("pwd", fun _ _ => Builtin.printDirectory []), ("printf", fun _ => Builtin.printf),
   ("test", fun _ => Builtin.test), ("[", fun _ => Builtin.bracket)]

/-- The names that the shell itself is known under. -/
def shellNames : List String := ["sh", "dash"]

/-- The program that sets variables for another one. -/
def environmentName : String := "env"

/-- The names of all programs. -/
def names : List String := shellNames ++ environmentName :: table.map Prod.fst

end LayeredConfig.Shell.Utility
