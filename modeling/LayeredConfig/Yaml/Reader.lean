import LayeredConfig.Yaml.Node.Grammar
import LayeredConfig.Yaml.Plain
import LayeredConfig.Yaml.Token.Lexer

/-!
# Reading YAML texts

Values are made from nodes. An alias stands for another copy of its node, within a limit on such
jumps; collections are nested 128 deep at most; and no two keys of a mapping are equal.
-/

namespace LayeredConfig.Yaml

/-! ## Equality of values -/

/-- Whether two numbers are equal. Zero has no sign here, and what is no number equals itself. -/
def Number.same : Number → Number → Bool
  | integer a, integer b => a == b
  | float a, float b => a == b || (isZero a && isZero b)
  | _, _ => false
where
  isZero (text : String) : Bool := text == "0.0" || text == "-0.0"

namespace Value

/-- What counts of the name of a tag: not an exclamation mark in front of it. -/
def tagText (tag : String) : String :=
  if tag.startsWith "!" && tag != "!" then (tag.drop 1).toString else tag

mutual

/-- Whether two values are equal; the entries of mappings have no order. -/
def same : Value → Value → Bool
  | null, null => true
  | bool a, bool b => a == b
  | number a, number b => a.same b
  | string a, string b => a == b
  | sequence items, sequence others => sameItems items others
  | mapping entries, mapping others =>
    entries.length == others.length && sameEntries entries others
  | tagged tag value, tagged tag' value' => tagText tag == tagText tag' && same value value'
  | _, _ => false

def sameItems : List Value → List Value → Bool
  | [], [] => true
  | a :: rest, b :: rest' => same a b && sameItems rest rest'
  | _, _ => false

def sameEntries : List (Value × Value) → List (Value × Value) → Bool
  | [], _ => true
  | (key, value) :: rest, others =>
    others.any (fun (key', value') => same key key' && same value value') && sameEntries rest others

end

/-- Whether two keys of a mapping are equal. -/
def hasDuplicate : List Value → Bool
  | [] => false
  | key :: rest => rest.any (key.same ·) || hasDuplicate rest

end Value

/-! ## Values of nodes -/

/-- A text as a tree with the nodes of its anchors. -/
structure Source where
  root : Node
  targets : List (Nat × Node)

/-- Work with a limited number of jumps from aliases to their nodes. -/
abbrev Jumps := StateT Nat (Except Error)

namespace Source

def ofNode (root : Node) : Source := ⟨root, root.anchored []⟩

/-- All aliases together may be followed a hundred times per step of the text. -/
def jumpLimit (source : Source) : Nat := source.root.size * 100

/-- The node that stands behind an alias. -/
def resolve (source : Source) : Node → Jumps Node
  | .reference anchor => do
    let left ← get
    match left, Node.target? source.targets anchor with
    | left + 1, some node =>
      set left
      return node
    | _, _ => throw (.malformed ⟨0, 0⟩)
  | node => return node

end Source

/-- Whether a tag is one of the application. -/
def isLocal (tag : TagName) : Bool := tag.head? = some 0x21

/-- The name that a tag of the application gives to a value, if it is text. -/
def localName? (tag : TagName) : Option String :=
  match tag with
  | 0x21 :: rest => String.fromUTF8? ⟨(if rest.isEmpty then tag else rest).toArray⟩
  | _ => none

def withTag (tag : Option TagName) (value : Value) : Value :=
  match tag >>= localName? with
  | some name => .tagged name value
  | none => value

/-- The value of a scalar under a tag of the core schema, if there is one. -/
def coreValue? (tag : TagName) (text : String) : Option (Option Value) := do
  Plain.core? (← String.fromUTF8? ⟨tag.toArray⟩) text

/-- The value of a scalar. Without a tag, and under one of the application, it is what a plain
scalar means; under other tags it is text. -/
def scalarValue (p : Properties) (text : String) (plain : Bool) : Except Error Value :=
  let refuse {α : Type} : Option α → Except Error α
    | some a => .ok a
    | none => .error (.malformed p.mark)
  match p.tag >>= (coreValue? · text) with
  | some value => refuse value
  | none =>
    if plain && p.tag.all isLocal then (refuse (Plain.value? text)).map (withTag p.tag)
    else .ok (withTag p.tag (.string text))

namespace Source

/-- The value of a node with collections at most `depth` deep. -/
def value (source : Source) (depth : Nat) (node : Node) : Jumps Value := do
  match ← source.resolve node, depth with
  | .scalar p text plain, _ => scalarValue p text plain
  | .sequence p items, depth + 1 =>
    return withTag p.tag (.sequence (← items.mapM (value source depth)))
  | .mapping p entries, depth + 1 =>
    let entries ← entries.mapM fun (key, content) => do
      return (← value source depth key, ← value source depth content)
    if Value.hasDuplicate (entries.map (·.1)) then throw (.malformed p.mark)
    return withTag p.tag (.mapping entries)
  | .sequence p _, 0 => throw (.malformed p.mark)
  | .mapping p _, 0 => throw (.malformed p.mark)
  | .reference _, _ => throw (.malformed ⟨0, 0⟩)

def maxDepth : Nat := 128

/-! ## Settings -/

/-- The text of a key, whatever value it would stand for. -/
def name (source : Source) (key : Node) : Jumps String := do
  match ← source.resolve key with
  | .scalar _ text _ => return text
  | .sequence p _ => throw (.nameIsCollection .sequence p.mark)
  | .mapping p _ => throw (.nameIsCollection .mapping p.mark)
  | .reference _ => throw (.malformed ⟨0, 0⟩)

/-- Adds a setting, in the place of an earlier one with the same name. -/
def addSetting (settings : List (String × Value)) (name : String) (value : Value) :
    List (String × Value) :=
  if settings.any (·.1 == name) then
    settings.map fun setting => if setting.1 == name then (name, value) else setting
  else settings ++ [(name, value)]

def settingsOf (source : Source) (entries : List (Node × Node)) :
    Jumps (List (String × Value)) :=
  entries.foldlM (fun settings (key, content) => do
    let name ← source.name key
    return addSetting settings name (← source.value (maxDepth - 1) content)) []

def settings (source : Source) : Jumps (List (String × Value)) := do
  match ← source.resolve source.root with
  | .mapping _ entries => source.settingsOf entries
  | .scalar p _ _ => throw (.malformed p.mark)
  | .sequence p _ => throw (.malformed p.mark)
  | .reference _ => throw (.malformed ⟨0, 0⟩)

/-- The tree of a text, if the text has a document. -/
def read? (text : String) : Except Error (Option Source) := do
  return (← Node.ofTokens (← Token.scan text)).map ofNode

end Source

/-! ## The reader -/

def readValue (text : String) : Except Error Value := do
  match ← Source.read? text with
  | none => return .null
  | some source => return (← (source.value Source.maxDepth source.root).run source.jumpLimit).1

def readSettings (text : String) : Except Error (List (String × Value)) := do
  match ← Source.read? text with
  | none => return []
  | some source => return (← source.settings.run source.jumpLimit).1

def reader : Reader := ⟨readValue, readSettings⟩

end LayeredConfig.Yaml
