import LayeredConfig.Settings.Key
import LayeredConfig.Settings.Table

/-!
# Environment variables and secrets

A setting counts as set, by a variable or anywhere else, only when it is not empty. The values of secret-looking
names are hidden in anything that is shown to the user.
-/

namespace LayeredConfig

/-- An empty value counts as none. -/
def nonEmpty? (value : Option String) : Option String :=
  value.filter fun text => !text.isEmpty

abbrev Environment := Table

namespace Environment

/-- The first of the named variables with a non-empty value. -/
def firstNonEmpty? (env : Environment) (names : List String) : Option String :=
  (names.filterMap env.get?).find? fun value => !value.isEmpty

end Environment

namespace Secret

def upperAscii (name : String) : List Char :=
  name.toList.map Char.toUpper

/-- Whether `part` occurs in a text. -/
def occursIn (part : List Char) : List Char → Bool
  | [] => part.isEmpty
  | c :: rest => part.isPrefixOf (c :: rest) || occursIn part rest

/-- The words that make a name look secret, in any case of the letters A to Z. -/
def marks : List (List Char) :=
  ["TOKEN".toList, "SECRET".toList, "PASSWORD".toList, "PRIVATE".toList]

def looksSecret (name : String) : Bool :=
  marks.any fun mark => occursIn mark (upperAscii name)

def placeholder : String := "<redacted>"

/-- A value as it is shown. An empty value is never hidden. -/
def display (redact : Bool) (name value : String) : String :=
  if redact && looksSecret name && !value.isEmpty then placeholder else value

end Secret

end LayeredConfig
