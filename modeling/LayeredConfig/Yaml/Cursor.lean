import LayeredConfig.Yaml.Value

/-!
# A place in a YAML text

A cursor holds the characters that are still to be read and counts octets, lines and columns.
Lines end at any of the five line breaks of YAML 1.1.
-/

namespace LayeredConfig.Yaml

/-! ## Character classes -/

def isBreak (c : Char) : Bool :=
  c == '\r' || c == '\n' || c == '\u0085' || c == '\u2028' || c == '\u2029'

/-- A space or a tab. -/
def isSpace (c : Char) : Bool :=
  c == ' ' || c == '\t'

/-- Whether the next character, if there is one, is white space. -/
def endsToken (next : Option Char) : Bool :=
  next.all fun c => isSpace c || isBreak c

/-- What names of anchors and tags are made of. -/
def isNameChar (c : Char) : Bool :=
  ('0' ≤ c && c ≤ '9') || ('a' ≤ c && c ≤ 'z') || ('A' ≤ c && c ≤ 'Z') || c == '_' || c == '-'

/-- The characters that may occur at all. -/
def isPrintable (c : Char) : Bool :=
  let n := c.toNat
  n == 0x09 || n == 0x0A || n == 0x0D || (0x20 ≤ n && n ≤ 0x7E) || n == 0x85 ||
    (0xA0 ≤ n && n ≤ 0xD7FF) || (0xE000 ≤ n && n ≤ 0xFFFD) || 0x10000 ≤ n

/-! ## Cursors -/

/-- How many octets a text takes. -/
def octets (text : List Char) : Nat := (String.ofList text).utf8ByteSize

structure Cursor where
  rest : List Char
  /-- How many octets stand before the cursor. -/
  offset : Nat := 0
  line : Nat := 0
  column : Nat := 0

namespace Cursor

def mark (c : Cursor) : Mark := ⟨c.line, c.column⟩

def peek? (c : Cursor) : Option Char := c.rest.head?

def startsWith (c : Cursor) (text : List Char) : Bool := text.isPrefixOf c.rest

/-- Passes over characters of one line. -/
def skip (c : Cursor) (count : Nat) : Cursor :=
  { c with
    rest := c.rest.drop count
    offset := c.offset + octets (c.rest.take count)
    column := c.column + count }

def skipWhile (c : Cursor) (p : Char → Bool) : Cursor :=
  c.skip (c.rest.takeWhile p).length

/-- Passes over a line break, if there is one. -/
def skipBreak (c : Cursor) : Cursor :=
  match c.rest with
  | '\r' :: '\n' :: rest => { rest, offset := c.offset + 2, line := c.line + 1, column := 0 }
  | b :: rest =>
    if isBreak b then { rest, offset := c.offset + b.utf8Size, line := c.line + 1, column := 0 }
    else c
  | [] => c

/-- Passes over a byte order mark at the start of a line. -/
def skipByteOrderMark (c : Cursor) : Cursor :=
  if c.column == 0 && c.startsWith ['\ufeff'] then c.skip 1 else c

theorem length_skip_le (c : Cursor) (count : Nat) :
    (c.skip count).rest.length ≤ c.rest.length := by
  simp [skip]

theorem length_skipByteOrderMark_le (c : Cursor) :
    c.skipByteOrderMark.rest.length ≤ c.rest.length := by
  unfold skipByteOrderMark
  split
  · exact c.length_skip_le 1
  · exact Nat.le_refl _

theorem length_skipBreak_lt {c : Cursor} (h : c.peek?.any isBreak = true) :
    c.skipBreak.rest.length < c.rest.length := by
  unfold skipBreak
  split
  · simp only [*, List.length_cons]
    omega
  · simp_all [peek?]
  · simp_all [peek?]

/-- How a line break is read: the old ones as a line feed, the separators as themselves. -/
def breakText (c : Cursor) : List Char :=
  match c.rest with
  | '\u2028' :: _ => ['\u2028']
  | '\u2029' :: _ => ['\u2029']
  | b :: _ => if isBreak b then ['\n'] else []
  | [] => []

/-- Whether a document marker stands at the start of this line. -/
def atDocumentMarker (c : Cursor) : Bool :=
  c.column == 0 && (c.startsWith ['-', '-', '-'] || c.startsWith ['.', '.', '.']) &&
    endsToken c.rest[3]?

end Cursor

/-! ## White space inside scalars -/

/-- A run of white space: the spaces before its first line break, that break and the later ones. -/
structure Gap where
  cursor : Cursor
  spaces : List Char := []
  firstBreak : Option (List Char) := none
  laterBreaks : List Char := []

namespace Gap

def addBreak (g : Gap) : Gap :=
  let text := g.cursor.breakText
  let cursor := g.cursor.skipBreak
  match g.firstBreak with
  | none => { g with cursor, spaces := [], firstBreak := some text }
  | some _ => { g with cursor, laterBreaks := g.laterBreaks ++ text }

def addSpace (g : Gap) (c : Char) : Gap :=
  let cursor := g.cursor.skip 1
  match g.firstBreak with
  | none => { g with cursor, spaces := g.spaces ++ [c] }
  | some _ => { g with cursor }

/-- Reads on to the end of the white space. A tab before column `limit` of a later line is an
error. -/
def read (limit : Nat) (g : Gap) : List Char → Except Error Gap
  | [] => .ok g
  | '\r' :: '\n' :: rest => read limit g.addBreak rest
  | c :: rest =>
    if isBreak c then read limit g.addBreak rest
    else if isSpace c then
      if g.firstBreak.isSome && c = '\t' && g.cursor.column < limit then
        .error (.malformed g.cursor.mark)
      else read limit (g.addSpace c) rest
    else .ok g

/-- A single line break stands for a space, several for all but the first. -/
def text (g : Gap) : List Char :=
  match g.firstBreak with
  | none => g.spaces
  | some ['\n'] => if g.laterBreaks.isEmpty then [' '] else g.laterBreaks
  | some other => other ++ g.laterBreaks

def isFolded (g : Gap) : Bool :=
  g.firstBreak.isSome

end Gap

end LayeredConfig.Yaml
