import LayeredConfig.Text.Digit
import LayeredConfig.Yaml.Token

/-!
# Anchors, tags and directives of a YAML text

What stands in front of a node or of a document: names of anchors and aliases, tags as a handle
with a suffix, and the two directives.
-/

namespace LayeredConfig.Yaml

namespace Cursor

/-- Passes over one character that has to be there. -/
def expect (c : Cursor) (char : Char) : Except Error Cursor :=
  if c.peek? = some char then .ok (c.skip 1) else .error (.malformed c.mark)

def takeName (c : Cursor) : List Char × Cursor :=
  (c.rest.takeWhile isNameChar, c.skipWhile isNameChar)

end Cursor

/-- What may stand right behind the name of an anchor. -/
def endsAnchor (next : Option Char) : Bool :=
  endsToken next || next.any fun c =>
    c == '?' || c == ':' || c == ',' || c == ']' || c == '\x7d' || c == '%' || c == '@' || c == '\x60'

/-- Reads the name behind `&` or `*`. -/
def readAnchor (c : Cursor) : Except Error (String × Cursor) :=
  let (name, next) := c.takeName
  if name.isEmpty || !endsAnchor next.peek? then .error (.malformed next.mark)
  else .ok (String.ofList name, next)

/-! ## Tags -/

def isUriChar (verbatim : Bool) (c : Char) : Bool :=
  isNameChar c || c == ';' || c == '/' || c == '?' || c == ':' || c == '@' || c == '&' || c == '=' ||
    c == '+' || c == '$' || c == '.' || c == '%' || c == '!' || c == '~' || c == '*' || c == '\'' ||
    c == '(' || c == ')' || (verbatim && (c == ',' || c == '[' || c == ']'))

/-- How many more octets have to follow an octet that starts a character. -/
def followers? (octet : UInt8) : Option Nat :=
  if octet &&& 0x80 = 0x00 then some 0
  else if octet &&& 0xE0 = 0xC0 then some 1
  else if octet &&& 0xF0 = 0xE0 then some 2
  else if octet &&& 0xF8 = 0xF0 then some 3
  else none

/-- How many octets of a character are missing behind `octet` when `missing` were before it. -/
def missingAfter? (missing : Nat) (octet : UInt8) : Option Nat :=
  match missing with
  | 0 => followers? octet
  | missing + 1 => if octet &&& 0xC0 = 0x80 then some missing else none

/-- The octets that characters and escapes such as `%20` stand for. Escapes have to come in groups
of the lengths of characters; whether they are characters is not looked at. -/
def uriOctets? (missing : Nat) : List Char → Option (List UInt8)
  | [] => if missing = 0 then some [] else none
  | '%' :: high :: low :: rest => do
    let octet := ((← Text.hexValue? high) * 16 + (← Text.hexValue? low)).toUInt8
    return octet :: (← uriOctets? (← missingAfter? missing octet) rest)
  | '%' :: _ => none
  | c :: rest => do
    if missing ≠ 0 then none
    else return String.utf8EncodeChar c ++ (← uriOctets? 0 rest)

/-- Reads the characters of a tag, of which there is at least one if `required`. The tag ends at
an escaped null. -/
def readUri (verbatim required : Bool) (c : Cursor) : Except Error (TagName × Cursor) :=
  let chars := c.rest.takeWhile (isUriChar verbatim)
  match if required && chars.isEmpty then none else uriOctets? 0 chars with
  | some octets => .ok (octets.takeWhile (· != 0), c.skip chars.length)
  | none => .error (.malformed c.mark)

/-- Reads a handle: an exclamation mark, or a name between two of them. Without the second one the
name is part of the suffix. -/
def readHandle (c : Cursor) : Except Error (String × Bool × Cursor) := do
  let next ← c.expect '!'
  let (name, next) := next.takeName
  if next.peek? = some '!' then
    return (String.ofList ('!' :: name ++ ['!']), true, next.skip 1)
  else return (String.ofList ('!' :: name), false, next)

/-- The tag without a name. -/
def bareTag : TagName := "!".toUTF8.toList

/-- Reads a tag. A lone exclamation mark is a suffix without a handle. -/
def readTag (flow : Bool) (c : Cursor) : Except Error (TokenKind × Cursor) := do
  let (kind, next) ←
    if c.startsWith ['!', '<'] then do
      let (suffix, next) ← readUri true true (c.skip 2)
      pure (TokenKind.tag "" suffix, ← next.expect '>')
    else do
      let (handle, closed, next) ← readHandle c
      let (suffix, next) ← readUri false closed next
      if closed then pure (TokenKind.tag handle suffix, next)
      else
        let suffix := (handle.drop 1).toString.toUTF8.toList ++ suffix
        pure (if suffix.isEmpty then TokenKind.tag "" bareTag else TokenKind.tag "!" suffix, next)
  if endsToken next.peek? || (flow && next.peek? = some ',') then return (kind, next)
  else throw (.malformed next.mark)

/-! ## Directives -/

/-- Reads a number of one to nine digits. -/
def readVersionNumber (c : Cursor) : Except Error (Nat × Cursor) :=
  let digits := c.rest.takeWhile fun d => '0' ≤ d && d ≤ '9'
  if digits.isEmpty || digits.length > 9 then .error (.malformed c.mark)
  else .ok (digits.foldl (fun n d => n * 10 + (d.toNat - 48)) 0, c.skip digits.length)

def readVersion (c : Cursor) : Except Error (TokenKind × Cursor) := do
  let (major, c) ← readVersionNumber (c.skipWhile isSpace)
  let (minor, c) ← readVersionNumber (← c.expect '.')
  return (.version major minor, c)

def readTagDirective (c : Cursor) : Except Error (TokenKind × Cursor) := do
  let (handle, closed, c) ← readHandle (c.skipWhile isSpace)
  if !closed && handle != "!" then throw (.malformed c.mark)
  if !c.peek?.any isSpace then throw (.malformed c.mark)
  let (expansion, c) ← readUri true true (c.skipWhile isSpace)
  if !endsToken c.peek? then throw (.malformed c.mark)
  return (.tagDirective handle expansion, c)

/-- Passes over a comment, if there is one. -/
def Cursor.skipComment (c : Cursor) : Cursor :=
  if c.peek? = some '#' then c.skipWhile (!isBreak ·) else c

theorem Cursor.length_skipComment_le (c : Cursor) :
    c.skipComment.rest.length ≤ c.rest.length := by
  unfold skipComment
  split
  · exact c.length_skip_le _
  · exact Nat.le_refl _

/-- Reads a directive behind its percent sign, with the end of its line. -/
def readDirective (c : Cursor) : Except Error (TokenKind × Cursor) := do
  let (name, next) := c.takeName
  if !endsToken next.peek? then throw (.malformed next.mark)
  let (kind, next) ←
    if name = ['Y', 'A', 'M', 'L'] then readVersion next
    else if name = ['T', 'A', 'G'] then readTagDirective next
    else throw (.malformed c.mark)
  let next := (next.skipWhile isSpace).skipComment
  if next.peek?.all isBreak then return (kind, next.skipBreak)
  else throw (.malformed next.mark)

end LayeredConfig.Yaml
