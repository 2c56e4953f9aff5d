/-!
# YAML values

The values that a YAML text stands for, and the interface of a reader for them. Whoever uses a
reader asks for one value or for the settings of a top-level mapping with texts as names.
-/

namespace LayeredConfig.Yaml

inductive Number where
  | integer (value : Int)
  /-- A number with a fraction or exponent, by the shortest decimal text that reads back. -/
  | float (text : String)
deriving DecidableEq, Repr

def Number.text : Number → String
  | integer value => toString value
  | float text => text

inductive Value where
  | null
  | bool (value : Bool)
  | number (value : Number)
  | string (text : String)
  | sequence (items : List Value)
  | mapping (entries : List (Value × Value))
  | tagged (tag : String) (value : Value)

namespace Value

/-- The value without its tags. -/
def untag : Value → Value
  | tagged _ value => untag value
  | value => value

/-- The text of a value that is neither a collection nor tagged. -/
def scalarText? : Value → Option String
  | null => some ""
  | bool true => some "true"
  | bool false => some "false"
  | number n => some n.text
  | string text => some text
  | _ => none

def string? (value : Value) : Option String :=
  match value.untag with
  | string text => some text
  | _ => none

def isSequence (value : Value) : Bool :=
  match value.untag with
  | sequence _ => true
  | _ => false

def mapping? (value : Value) : Option (List (Value × Value)) :=
  match value.untag with
  | mapping entries => some entries
  | _ => none

/-- The value under a text in a mapping. -/
def get? (value : Value) (name : String) : Option Value := do
  let entries ← value.mapping?
  let entry ← entries.find? fun (key, _) => match key with
    | string text => text == name
    | _ => false
  return entry.2

end Value

/-! ## Errors -/

/-- A place in a text; lines and columns count from zero. -/
structure Mark where
  line : Nat
  column : Nat
deriving DecidableEq, Repr

inductive Collection where
  | sequence
  | mapping
deriving DecidableEq, Repr

def Collection.label : Collection → String
  | sequence => "sequence"
  | mapping => "map"

inductive Error where
  /-- The text follows no rule of YAML, or asks for something that is not done. -/
  | malformed (mark : Mark)
  /-- A name of the top-level mapping is no text. -/
  | nameIsCollection (found : Collection) (mark : Mark)
deriving DecidableEq, Repr

namespace Error

/-- The very start of a text is not worth telling. -/
def place (mark : Mark) : String :=
  if mark = ⟨0, 0⟩ then ""
  else " at line " ++ toString (mark.line + 1) ++ " column " ++ toString (mark.column + 1)

def message : Error → String
  | malformed mark => "malformed text" ++ place mark
  | nameIsCollection found mark =>
    "invalid type: " ++ found.label ++ ", expected a string" ++ place mark

end Error

/-- What can read YAML texts. -/
structure Reader where
  value : String → Except Error Value
  /-- The entries of the top-level mapping by name, each name once, in the order of their first
  places. -/
  settings : String → Except Error (List (String × Value))

end LayeredConfig.Yaml
