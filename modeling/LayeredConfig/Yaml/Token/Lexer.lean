import LayeredConfig.Yaml.Token.Scalar

/-!
# From text to tokens

Block collections have no brackets: the lexer opens and closes them by the column of what it meets.
A key without a question mark is only known as one when its colon comes, so the lexer remembers for
every bracket that is open where such a key may have started, and puts the tokens that announce it
there.
-/

namespace LayeredConfig.Yaml

/-- A place where a key may have started. -/
structure PendingKey where
  /-- How many tokens stand before it. -/
  position : Nat
  mark : Mark
  /-- How many octets stand before it. -/
  offset : Nat
  /-- Whether nothing but a key can stand there. -/
  required : Bool

structure Lexer where
  cursor : Cursor
  tokens : Array Token := #[]
  /-- The columns of the open block collections, innermost first. -/
  columns : List Nat := []
  /-- The key that may have started inside the innermost bracket. -/
  key : Option PendingKey := none
  /-- The same for the brackets around it. -/
  outerKeys : List (Option PendingKey) := []
  /-- Whether a key may start here. -/
  keyAllowed : Bool := true

namespace Lexer

def inFlow (s : Lexer) : Bool := !s.outerKeys.isEmpty

/-- The column that a nested block has to reach at least. -/
def level (s : Lexer) : Nat :=
  match s.columns with
  | [] => 0
  | column :: _ => column + 1

def fail {α : Type} (s : Lexer) : Except Error α := .error (.malformed s.cursor.mark)

def push (s : Lexer) (kind : TokenKind) (mark : Mark) : Lexer :=
  { s with tokens := s.tokens.push ⟨kind, mark⟩ }

def insert (s : Lexer) (position : Nat) (kind : TokenKind) (mark : Mark) : Lexer :=
  { s with tokens := s.tokens.insertIdxIfInBounds position ⟨kind, mark⟩ }

/-! ## Keys that may have started -/

/-- Gives up the key that may have started inside the innermost bracket. -/
def dropKey (s : Lexer) : Except Error Lexer :=
  if s.key.any (·.required) then s.fail else .ok { s with key := none }

/-- Remembers that a key may start here. -/
def saveKey (s : Lexer) : Except Error Lexer := do
  if !s.keyAllowed then return s
  let required := !s.inFlow && s.columns.head? = some s.cursor.column
  let s ← s.dropKey
  return { s with key := some ⟨s.tokens.size, s.cursor.mark, s.cursor.offset, required⟩ }

/-- A key ends on its line and has at most 1024 octets. -/
def isStale (c : Cursor) (key : PendingKey) : Bool :=
  key.mark.line < c.line || key.offset + 1024 < c.offset

def forgetStale (s : Lexer) : Except Error Lexer :=
  let stale (key : PendingKey) : Bool := isStale s.cursor key
  if (s.key :: s.outerKeys).any (·.any fun key => stale key && key.required) then s.fail
  else .ok { s with
    key := s.key.filter (!stale ·)
    outerKeys := s.outerKeys.map fun key => key.filter (!stale ·) }

/-! ## Block collections -/

/-- Closes the block collections to the right of a column. -/
def closeBlocks (s : Lexer) (column : Nat) : Lexer :=
  if s.inFlow then s
  else
    let closed := s.columns.takeWhile (column < ·)
    let s := { s with columns := s.columns.drop closed.length }
    closed.foldl (fun s _ => s.push .blockEnd s.cursor.mark) s

def closeAllBlocks (s : Lexer) : Lexer :=
  if s.inFlow then s
  else s.columns.foldl (fun s _ => s.push .blockEnd s.cursor.mark) { s with columns := [] }

/-- Opens a block collection that starts with the token at `position`, unless one is open at that
column. -/
def openBlock (s : Lexer) (position column : Nat) (kind : TokenKind) (mark : Mark) : Lexer :=
  if s.inFlow || column < s.level then s
  else { s with columns := column :: s.columns }.insert position kind mark

/-- Opens a block collection here, where a new line or an indicator has to come before it. -/
def openBlockHere (s : Lexer) (kind : TokenKind) : Except Error Lexer :=
  if s.inFlow then .ok s
  else if s.keyAllowed then .ok (s.openBlock s.tokens.size s.cursor.column kind s.cursor.mark)
  else s.fail

/-! ## Tokens -/

/-- Takes the next characters as a token. -/
def take (s : Lexer) (kind : TokenKind) (length : Nat) : Lexer :=
  { s.push kind s.cursor.mark with cursor := s.cursor.skip length }

/-- Goes on at `cursor` after a token that started here. -/
def taken (s : Lexer) (kind : TokenKind) (cursor : Cursor) : Lexer :=
  { s.push kind s.cursor.mark with cursor }

def lexDirective (s : Lexer) : Except Error Lexer := do
  let s ← s.closeAllBlocks.dropKey
  let (kind, cursor) ← readDirective (s.cursor.skip 1)
  return { s with keyAllowed := false }.taken kind cursor

def lexDocumentMarker (s : Lexer) (kind : TokenKind) : Except Error Lexer := do
  let s ← s.closeAllBlocks.dropKey
  return { s with keyAllowed := false }.take kind 3

def lexFlowStart (s : Lexer) (kind : TokenKind) : Except Error Lexer := do
  let s ← s.saveKey
  return { s with key := none, outerKeys := s.key :: s.outerKeys, keyAllowed := true }.take kind 1

def lexFlowEnd (s : Lexer) (kind : TokenKind) : Except Error Lexer := do
  let s ← s.dropKey
  let s := match s.outerKeys with
    | [] => s
    | key :: outerKeys => { s with key, outerKeys }
  return { s with keyAllowed := false }.take kind 1

def lexFlowEntry (s : Lexer) : Except Error Lexer := do
  let s ← s.dropKey
  return { s with keyAllowed := true }.take .flowEntry 1

def lexBlockEntry (s : Lexer) : Except Error Lexer := do
  let s ← (← s.openBlockHere .blockSequenceStart).dropKey
  return { s with keyAllowed := true }.take .blockEntry 1

def lexKey (s : Lexer) : Except Error Lexer := do
  let s ← (← s.openBlockHere .blockMappingStart).dropKey
  return { s with keyAllowed := !s.inFlow }.take .key 1

/-- A colon ends the key that may have started before it, or stands behind an announced key. -/
def lexValue (s : Lexer) : Except Error Lexer := do
  match s.key with
  | some key =>
    let s := s.insert key.position .key key.mark
    let s := s.openBlock key.position key.mark.column .blockMappingStart key.mark
    return { s with key := none, keyAllowed := false }.take .value 1
  | none =>
    let s ← s.openBlockHere .blockMappingStart
    return { s with keyAllowed := !s.inFlow }.take .value 1

def lexAnchor (s : Lexer) (kind : String → TokenKind) : Except Error Lexer := do
  let s ← s.saveKey
  let (name, cursor) ← readAnchor (s.cursor.skip 1)
  return { s with keyAllowed := false }.taken (kind name) cursor

def lexTag (s : Lexer) : Except Error Lexer := do
  let s ← s.saveKey
  let (kind, cursor) ← readTag s.inFlow s.cursor
  return { s with keyAllowed := false }.taken kind cursor

def takeScalar (s : Lexer) (scalar : ScalarText) (plain keyAllowed : Bool) : Lexer :=
  { s with keyAllowed }.taken (.scalar (String.ofList scalar.text) plain) scalar.cursor

def lexBlockScalar (s : Lexer) (literal : Bool) : Except Error Lexer := do
  let s ← s.dropKey
  return s.takeScalar (← blockScalar literal s.level (s.cursor.skip 1)) false true

def lexQuoted (s : Lexer) (single : Bool) : Except Error Lexer := do
  let s ← s.saveKey
  return s.takeScalar (← quotedFrom single [] (s.cursor.skip 1)) false false

/-- A plain scalar that ends behind a line break leaves room for a key. -/
def lexPlain (s : Lexer) : Except Error Lexer := do
  let s ← s.saveKey
  let scalar ← plainFrom s.inFlow s.level [] [] false s.cursor
  return s.takeScalar scalar true scalar.folded

/-- The characters that have a meaning of their own at the start of a token. -/
def isIndicator (c : Char) : Bool :=
  "-?:,[]\x7b\x7d#&*!|>'\"%@\x60".contains c

def startsPlain (flow : Bool) (c : Char) (next : Option Char) : Bool :=
  !(endsToken (some c) || isIndicator c) || (c == '-' && !next.any isSpace) ||
    (!flow && (c == '?' || c == ':') && !endsToken next)

/-- Reads the token that starts with character `c`. -/
def lexToken (s : Lexer) (c : Char) : Except Error Lexer :=
  let next := s.cursor.rest[1]?
  let announces := s.inFlow || endsToken next
  if s.cursor.column = 0 && c = '%' then s.lexDirective
  else if s.cursor.atDocumentMarker then
    s.lexDocumentMarker (if c = '-' then .documentStart else .documentEnd)
  else if c = '[' then s.lexFlowStart .flowSequenceStart
  else if c = '\x7b' then s.lexFlowStart .flowMappingStart
  else if c = ']' then s.lexFlowEnd .flowSequenceEnd
  else if c = '\x7d' then s.lexFlowEnd .flowMappingEnd
  else if c = ',' then s.lexFlowEntry
  else if c = '-' && endsToken next then s.lexBlockEntry
  else if c = '?' && announces then s.lexKey
  else if c = ':' && announces then s.lexValue
  else if c = '*' then s.lexAnchor .reference
  else if c = '&' then s.lexAnchor .anchor
  else if c = '!' then s.lexTag
  else if c = '|' && !s.inFlow then s.lexBlockScalar true
  else if c = '>' && !s.inFlow then s.lexBlockScalar false
  else if c = '\'' then s.lexQuoted true
  else if c = '"' then s.lexQuoted false
  else if startsPlain s.inFlow c next then s.lexPlain
  else s.fail

/-! ## The whole text -/

/-- Passes over white space, comments and line ends. A tab may not stand where a key may start,
except inside brackets. A byte order mark may start a line, and fills a column of it. -/
def skipBlank (s : Lexer) : Lexer :=
  let tabs := s.inFlow || !s.keyAllowed
  let next := s.cursor.skipByteOrderMark
  let next := (next.skipWhile fun c => c == ' ' || (tabs && c == '\t')).skipComment
  if _hbreak : next.peek?.any isBreak then
    { s with cursor := next.skipBreak, keyAllowed := s.keyAllowed || !s.inFlow }.skipBlank
  else { s with cursor := next }
termination_by s.cursor.rest.length
decreasing_by
  exact Nat.lt_of_lt_of_le (Cursor.length_skipBreak_lt _hbreak)
    (Nat.le_trans (Cursor.length_skipComment_le _)
      (Nat.le_trans (Cursor.length_skip_le _ _) (Cursor.length_skipByteOrderMark_le _)))

/-- Closes what is open at the end of the text, which counts as a new line. -/
def finish (s : Lexer) : Except Error Lexer := do
  let c := s.cursor
  let c := if c.column = 0 then c else { c with line := c.line + 1, column := 0 }
  let s ← { s with cursor := c }.closeAllBlocks.dropKey
  return s.push .streamEnd c.mark

def run (s : Lexer) : Except Error Lexer := do
  let here ← s.skipBlank.forgetStale
  let here := here.closeBlocks here.cursor.column
  match here.cursor.peek? with
  | none => here.finish
  | some c =>
    let next ← here.lexToken c
    if _hless : next.cursor.rest.length < s.cursor.rest.length then next.run else next.fail
termination_by s.cursor.rest.length

end Lexer

/-- The tokens of a text, the last of which is its end. -/
def Token.scan (text : String) : Except Error (List Token) := do
  if !text.toList.all isPrintable then throw (.malformed ⟨0, 0⟩)
  return (← Lexer.run { cursor := { rest := text.toList } }).tokens.toList

end LayeredConfig.Yaml
