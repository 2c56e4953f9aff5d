import LayeredConfig.Yaml.Cursor

/-!
# Tokens of a YAML text
-/

namespace LayeredConfig.Yaml

/-- A tag or a part of one. Its escapes need not stand for text. -/
abbrev TagName := List UInt8

inductive TokenKind where
  | version (major minor : Nat)
  | tagDirective (handle : String) (expansion : TagName)
  | documentStart
  | documentEnd
  | blockSequenceStart
  | blockMappingStart
  | blockEnd
  | flowSequenceStart
  | flowSequenceEnd
  | flowMappingStart
  | flowMappingEnd
  | blockEntry
  | flowEntry
  | key
  | value
  | reference (name : String)
  | anchor (name : String)
  | tag (handle : String) (suffix : TagName)
  | scalar (text : String) (plain : Bool)
  | streamEnd
deriving DecidableEq, Repr

structure Token where
  kind : TokenKind
  mark : Mark
deriving DecidableEq, Repr

end LayeredConfig.Yaml
