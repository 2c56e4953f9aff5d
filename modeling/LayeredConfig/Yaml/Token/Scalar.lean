import LayeredConfig.Yaml.Token.Name

/-!
# Scalars of a YAML text

A scalar is quoted, plain or a block. Lines of quoted and plain scalars are folded; a block keeps
its lines or folds them, and its end is chomped as its header says. Every step of the loops below
passes over at least one character.
-/

namespace LayeredConfig.Yaml

/-- A scalar and the place behind it. -/
structure ScalarText where
  text : List Char
  cursor : Cursor
  /-- Whether the last thing read was a line break. -/
  folded : Bool := false

/-! ## Plain scalars -/

/-- What would make a colon inside a flow collection ambiguous. -/
def isFlowIndicator (c : Char) : Bool :=
  c == ',' || c == '?' || c == '[' || c == ']' || c == '\x7b' || c == '\x7d'

def endsPlain (flow : Bool) (c : Char) (next : Option Char) : Bool :=
  (c == ':' && endsToken next) || (flow && isFlowIndicator c && c != '?')

/-- The characters up to white space or the end of a plain scalar. -/
def plainWord (flow : Bool) : List Char → Option (List Char)
  | [] => some []
  | c :: rest =>
    if isSpace c || isBreak c then some []
    else if flow && c == ':' && rest.head?.any isFlowIndicator then none
    else if endsPlain flow c rest.head? then some []
    else (plainWord flow rest).map (c :: ·)

/-- Reads on in a plain scalar; `gap` is the white space before the cursor. -/
def plainFrom (flow : Bool) (indent : Nat) (text gap : List Char) (folded : Bool) (c : Cursor) :
    Except Error ScalarText :=
  if c.atDocumentMarker || c.peek? = some '#' then .ok ⟨text, c, folded⟩
  else match plainWord flow c.rest with
  | none => .error (.malformed c.mark)
  | some [] => .ok ⟨text, c, folded⟩
  | some word => do
    let text := text ++ gap ++ word
    let next := c.skip word.length
    let g ← Gap.read indent { cursor := next } next.rest
    if !flow && g.isFolded && g.cursor.column < indent then return ⟨text, g.cursor, true⟩
    else if _hless : g.cursor.rest.length < c.rest.length then
      if g.spaces.isEmpty && !g.isFolded then return ⟨text, g.cursor, false⟩
      else plainFrom flow indent text g.text g.isFolded g.cursor
    else .error (.malformed c.mark)
termination_by c.rest.length

/-! ## Quoted scalars -/

/-- How a run of characters inside quotes ends. -/
inductive QuoteStop where
  | space
  | quote
  | escapedBreak
deriving DecidableEq

structure QuoteRun where
  text : List Char
  rest : List Char
  stop : QuoteStop

def QuoteRun.push (c : Char) (run : QuoteRun) : QuoteRun :=
  { run with text := c :: run.text }

/-- The characters between single quotes up to white space or the closing quote. -/
def singleRun : List Char → QuoteRun
  | [] => ⟨[], [], .space⟩
  | '\'' :: '\'' :: rest => (singleRun rest).push '\''
  | '\'' :: rest => ⟨[], '\'' :: rest, .quote⟩
  | c :: rest =>
    if isSpace c || isBreak c then ⟨[], c :: rest, .space⟩ else (singleRun rest).push c

def simpleEscape? : Char → Option Char
  | '0' => some '\x00'
  | 'a' => some '\x07'
  | 'b' => some '\x08'
  | 't' => some '\t'
  | '\t' => some '\t'
  | 'n' => some '\n'
  | 'v' => some '\x0b'
  | 'f' => some '\x0c'
  | 'r' => some '\r'
  | 'e' => some '\x1b'
  | ' ' => some ' '
  | '"' => some '"'
  | '/' => some '/'
  | '\\' => some '\\'
  | 'N' => some '\u0085'
  | '_' => some '\u00a0'
  | 'L' => some '\u2028'
  | 'P' => some '\u2029'
  | _ => none

def escapeWidth? : Char → Option Nat
  | 'x' => some 2
  | 'u' => some 4
  | 'U' => some 8
  | _ => none

/-- The character that exactly `count` hexadecimal digits name. -/
def hexChar? (count : Nat) (text : List Char) : Option Char := do
  let digits := text.take count
  if digits.length ≠ count then none
  else
    let code ← digits.foldlM (fun total c => do return total * 16 + (← Text.hexValue? c)) 0
    if code.isValidChar then some (Char.ofNat code) else none

/-- The characters between double quotes up to white space, the closing quote or an escaped line
break. -/
def doubleRun : List Char → Option QuoteRun
  | [] => some ⟨[], [], .space⟩
  | '"' :: rest => some ⟨[], '"' :: rest, .quote⟩
  | ['\\'] => none
  | '\\' :: kind :: rest =>
    if isBreak kind then some ⟨[], kind :: rest, .escapedBreak⟩
    else match simpleEscape? kind, escapeWidth? kind with
    | some c, _ => (doubleRun rest).map (·.push c)
    | none, some count => do
      let c ← hexChar? count rest
      (doubleRun (rest.drop count)).map (·.push c)
    | none, none => none
  | c :: rest =>
    if isSpace c || isBreak c then some ⟨[], c :: rest, .space⟩
    else (doubleRun rest).map (·.push c)
termination_by text => text.length

def quoteRun? (single : Bool) (text : List Char) : Option QuoteRun :=
  if single then some (singleRun text) else doubleRun text

/-- Reads on between quotes, up to and with the closing one. -/
def quotedFrom (single : Bool) (text : List Char) (c : Cursor) : Except Error ScalarText :=
  if c.atDocumentMarker || c.rest.isEmpty then .error (.malformed c.mark)
  else match quoteRun? single c.rest with
  | none => .error (.malformed c.mark)
  | some run => do
    let text := text ++ run.text
    let next := c.skip (c.rest.length - run.rest.length)
    if run.stop = .quote then return ⟨text, next.skip 1, false⟩
    else
      let start : Gap :=
        if run.stop = .escapedBreak then { cursor := next.skipBreak, firstBreak := some [] }
        else { cursor := next }
      let g ← Gap.read 0 start start.cursor.rest
      if _hless : g.cursor.rest.length < c.rest.length then
        quotedFrom single (text ++ g.text) g.cursor
      else .error (.malformed c.mark)
termination_by c.rest.length

/-! ## Block scalars -/

/-- What happens to the line breaks at the end of a block. -/
inductive Chomping where
  | strip
  | clip
  | keep
deriving DecidableEq

structure BlockHeader where
  chomping : Chomping := .clip
  increment : Nat := 0
  cursor : Cursor

def chomping? : Option Char → Option Chomping
  | some '+' => some .keep
  | some '-' => some .strip
  | _ => none

/-- An indentation indicator is one digit other than zero; anything else stands for none. -/
def readIncrement (c : Cursor) : Except Error (Nat × Cursor) :=
  match c.peek? with
  | some d =>
    if d = '0' then .error (.malformed c.mark)
    else if '1' ≤ d && d ≤ '9' then .ok (d.toNat - 48, c.skip 1)
    else .ok (0, c)
  | none => .ok (0, c)

/-- The header behind the indicator of a block, with the end of its line. -/
def readHeader (c : Cursor) : Except Error BlockHeader := do
  let header : BlockHeader ← match chomping? c.peek? with
    | some chomping => do
      let (increment, cursor) ← readIncrement (c.skip 1)
      pure { chomping, increment, cursor }
    | none => do
      let (increment, cursor) ← readIncrement c
      match if increment = 0 then none else chomping? cursor.peek? with
      | some chomping => pure { chomping, increment, cursor := cursor.skip 1 }
      | none => pure { increment, cursor }
  let c := (header.cursor.skipWhile isSpace).skipComment
  if c.peek?.all isBreak then return { header with cursor := c.skipBreak }
  else .error (.malformed c.mark)

/-- Empty lines of a block with the indentation of the line behind them. -/
structure BlankLines where
  breaks : List Char
  cursor : Cursor
  /-- The widest indentation that was met. -/
  widest : Nat

/-- Passes over empty lines, and over the indentation of the next line up to column `indent`, or
all of it while the indentation of the block is not known. -/
def blankLines (indent : Option Nat) (breaks : List Char) (widest : Nat) (c : Cursor) :
    Except Error BlankLines :=
  let spaces := (c.rest.takeWhile (· == ' ')).length
  let next := c.skip (match indent with | none => spaces | some n => min spaces (n - c.column))
  let widest := max widest next.column
  if indent.all (next.column < ·) && next.peek? = some '\t' then .error (.malformed next.mark)
  else if _hbreak : next.peek?.any isBreak then
    blankLines indent (breaks ++ next.breakText) widest next.skipBreak
  else .ok ⟨breaks, next, widest⟩
termination_by c.rest.length
decreasing_by exact Nat.lt_of_lt_of_le (Cursor.length_skipBreak_lt _hbreak) (c.length_skip_le _)

/-- What is read of a block so far. -/
structure Block where
  text : List Char := []
  /-- The break at the end of the last line. -/
  lastBreak : List Char := []
  /-- The empty lines behind it. -/
  breaks : List Char := []
  /-- Whether the last line started with white space. -/
  indented : Bool := false

/-- The text of the block before its next line, which starts with white space if `indented`. -/
def Block.join (literal : Bool) (b : Block) (indented : Bool) : List Char :=
  if !literal && b.lastBreak = ['\n'] && !b.indented && !indented then
    b.text ++ (if b.breaks.isEmpty then [' '] else []) ++ b.breaks
  else b.text ++ b.lastBreak ++ b.breaks

/-- Reads the lines of a block that start in column `indent`. -/
def blockLines (literal : Bool) (indent : Nat) (b : Block) (c : Cursor) :
    Except Error (Block × Cursor) :=
  if c.column = indent && !c.rest.isEmpty then do
    let indented := c.peek?.any isSpace
    let line := c.rest.takeWhile (!isBreak ·)
    let stop := c.skip line.length
    let blank ← blankLines (some indent) [] 0 stop.skipBreak
    let b : Block :=
      ⟨b.join literal indented ++ line, stop.breakText, blank.breaks, indented⟩
    if _hless : blank.cursor.rest.length < c.rest.length then
      blockLines literal indent b blank.cursor
    else .error (.malformed c.mark)
  else .ok (b, c)
termination_by c.rest.length

/-- Reads a block behind its indicator; `level` is the column that its lines must at least have. -/
def blockScalar (literal : Bool) (level : Nat) (c : Cursor) : Except Error ScalarText := do
  let header ← readHeader c
  let indent := if header.increment = 0 then none else some (level - 1 + header.increment)
  let blank ← blankLines indent [] 0 header.cursor
  let indent := indent.getD (max (max blank.widest level) 1)
  let (b, cursor) ← blockLines literal indent { breaks := blank.breaks } blank.cursor
  let text := match header.chomping with
    | .strip => b.text
    | .clip => b.text ++ b.lastBreak
    | .keep => b.text ++ b.lastBreak ++ b.breaks
  return ⟨text, cursor, false⟩

end LayeredConfig.Yaml
