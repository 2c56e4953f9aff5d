/-!
# Syntax errors

Why a settings file cannot be read, and on which line, counted from one.
-/

namespace LayeredConfig

inductive SyntaxFault where
  | tabIndentation
  | topLevelNotMapping
  | unexpectedIndentation
  | itemAmongKeys
  | missingKey
  | nestedInlineSequence
  | flowMapping
  | flowSequence
  | blockScalar
  | anchorOrAlias
  | tag
  | trailingText (text : List Char)
  | invalidEscape (text : List Char)
  | truncatedEscape
  | unterminatedDoubleQuoted
  | unterminatedSingleQuoted
deriving DecidableEq, Repr

namespace SyntaxFault

def message : SyntaxFault → String
  | tabIndentation => "tabs are not allowed for indentation"
  | topLevelNotMapping => "top-level node must be a mapping"
  | unexpectedIndentation => "unexpected indentation"
  | itemAmongKeys => "expected a mapping key, found a sequence item"
  | missingKey => "expected a mapping key"
  | nestedInlineSequence => "nested inline sequences are not supported"
  | flowMapping => "flow mappings are not supported"
  | flowSequence => "flow sequences are not supported"
  | blockScalar => "block scalars are not supported"
  | anchorOrAlias => "anchors and aliases are not supported"
  | tag => "tags are not supported; quote values starting with '!'"
  | trailingText text => "unexpected text after value: " ++ String.ofList text
  | invalidEscape text => "invalid escape sequence " ++ String.ofList text
  | truncatedEscape => "truncated escape sequence"
  | unterminatedDoubleQuoted => "unterminated double-quoted scalar"
  | unterminatedSingleQuoted => "unterminated single-quoted scalar"

end SyntaxFault

structure SyntaxError where
  line : Nat
  fault : SyntaxFault
deriving DecidableEq, Repr

namespace SyntaxError

def message (e : SyntaxError) : String :=
  "line " ++ toString e.line ++ ": " ++ e.fault.message

end SyntaxError

end LayeredConfig
