import LayeredConfig.CommandLine.Grammar

/-!
# Requests

What the tool can be asked for on its command line, and the grammar of that.
-/

namespace LayeredConfig.CommandLine

inductive ConfigRequest where
  | get (key host : String) (json : Bool)
  | set (key value host : String)
  /-- A setting of the local repository. -/
  | setLocal (key value : String)
  | list (host : String) (showSecrets : Bool)
  | hosts
  | unsetHost (host : String)
deriving DecidableEq, Repr

inductive AliasRequest where
  | set (name expansion : String) (shell : Bool)
  | delete (name : String)
  | list (json : Bool)
deriving DecidableEq, Repr

inductive Request where
  | dump (redact : Bool)
  | config (request : ConfigRequest)
  | aliases (request : AliasRequest)
deriving DecidableEq, Repr

/-! ## The grammar of the tool -/

def toolName : String := "glab-config"

def toolVersion : String := "0.1.0"

def configGrammar : Grammar :=
  .command "config" { needsCommand := true } [
    .command "get" { positionals := ["key"], options := ["host"], flags := ["json"] } [],
    .command "set" {
      positionals := ["key", "value"], options := ["host"], flags := ["local"],
      exclusive := [("host", "local")] } [],
    .command "list" { options := ["host"], flags := ["show-secrets"] } [],
    .command "hosts" {} [],
    .command "unset-host" { positionals := ["hostname"] } []]

def aliasGrammar : Grammar :=
  .command "alias" { needsCommand := true } [
    .command "set" { positionals := ["name", "expansion"], flags := ["shell"] } [],
    .command "delete" { positionals := ["name"] } [],
    .command "list" { flags := ["json"] } []]

def toolGrammar : Grammar :=
  .command toolName { flags := ["dump-context", "no-redact"], versioned := true }
    [configGrammar, aliasGrammar]

/-! ## Requests of matches -/

def Matches.configRequest? (m : Matches) : Option ConfigRequest :=
  match m.commands, m.values with
  | ["config", "get"], [key] => some (.get key (m.option "host") (m.has "json"))
  | ["config", "set"], [key, value] =>
    some (if m.has "local" then .setLocal key value else .set key value (m.option "host"))
  | ["config", "list"], [] => some (.list (m.option "host") (m.has "show-secrets"))
  | ["config", "hosts"], [] => some .hosts
  | ["config", "unset-host"], [host] => some (.unsetHost host)
  | _, _ => none

def Matches.aliasRequest? (m : Matches) : Option AliasRequest :=
  match m.commands, m.values with
  | ["alias", "set"], [name, expansion] => some (.set name expansion (m.has "shell"))
  | ["alias", "delete"], [name] => some (.delete name)
  | ["alias", "list"], [] => some (.list (m.has "json"))
  | _, _ => none

/-- A summary is asked for before any command; without either there is only help to give. -/
def Matches.request (m : Matches) : Except Stop Request :=
  if m.has "dump-context" then .ok (.dump (!m.has "no-redact"))
  else match m.configRequest?, m.aliasRequest? with
  | some request, _ => .ok (.config request)
  | none, some request => .ok (.aliases request)
  | none, none => .error .help

/-- Reads the arguments of the tool. -/
def Request.parse (arguments : List String) : Except Stop Request := do
  (← toolGrammar.parse {} arguments).request

end LayeredConfig.CommandLine
