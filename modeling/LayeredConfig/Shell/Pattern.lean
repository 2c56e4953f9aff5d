/-!
# Patterns

A pattern stands for many texts: a star for any text, a question mark for any character, and
brackets for one of the characters in them. Quoted characters stand for themselves.
-/

namespace LayeredConfig.Shell

/-- A character that knows whether it was quoted. -/
structure Mark where
  char : Char
  quoted : Bool
deriving DecidableEq, Repr

namespace Mark

def ofText (quoted : Bool) (text : String) : List Mark :=
  text.toList.map fun c => ⟨c, quoted⟩

def toText (marks : List Mark) : String :=
  String.ofList (marks.map Mark.char)

/-- Whether a mark is a character that has a meaning of its own. -/
def is (c : Char) (mark : Mark) : Bool :=
  !mark.quoted && mark.char == c

end Mark

inductive PatternItem where
  | exactly (c : Char)
  | any
  | many
  /-- A character in one of some ranges, or in none of them. -/
  | oneOf (negated : Bool) (ranges : List (Char × Char))
deriving DecidableEq, Repr

abbrev Pattern := List PatternItem

namespace Pattern

/-! ## Brackets -/

def classes : List (String × List (Char × Char)) :=
  [("alpha", [('a', 'z'), ('A', 'Z')]), ("digit", [('0', '9')]),
   ("alnum", [('a', 'z'), ('A', 'Z'), ('0', '9')]), ("upper", [('A', 'Z')]),
   ("lower", [('a', 'z')]), ("space", [('\t', '\r'), (' ', ' ')]),
   ("blank", [(' ', ' '), ('\t', '\t')]), ("print", [(' ', '~')]), ("graph", [('!', '~')]),
   ("punct", [('!', '/'), (':', '@'), ('[', '\x60'), ('\x7b', '~')]),
   ("cntrl", [('\x00', '\x1f'), ('\x7f', '\x7f')]),
   ("xdigit", [('0', '9'), ('a', 'f'), ('A', 'F')])]

/-- The ranges of a class at the start of a text, and the length of its name with its signs. -/
def classAt? (marks : List Mark) : Option (List (Char × Char) × Nat) :=
  let text := marks.map Mark.char
  (classes.find? fun (name, _) => ("[:" ++ name ++ ":]").toList.isPrefixOf text).map
    fun (name, ranges) => (ranges, name.length + 4)

/-- The ranges up to the closing bracket and the number of characters before what follows it. -/
def readRanges : Nat → List Mark → Option (List (Char × Char) × Nat)
  | 0, _ => none
  | _, [] => none
  | fuel + 1, mark :: rest =>
    let continued (ranges : List (Char × Char)) (length : Nat) : Option (List (Char × Char) × Nat) :=
      let rest := (mark :: rest).drop length
      match rest with
      | close :: _ =>
        if close.is ']' then some (ranges, length + 1)
        else (readRanges fuel rest).map fun (more, count) => (ranges ++ more, count + length)
      | [] => none
    match classAt? (mark :: rest), rest with
    | some (ranges, length), _ => continued ranges length
    | none, dash :: last :: _ =>
      if dash.is '-' && !last.is ']' then continued [(mark.char, last.char)] 3
      else continued [(mark.char, mark.char)] 1
    | none, _ => continued [(mark.char, mark.char)] 1

/-- What stands behind an opening bracket, and how long it is. -/
def bracketAt? (marks : List Mark) : Option (PatternItem × Nat) :=
  let negated := match marks with
    | mark :: _ => mark.is '!' || mark.is '^'
    | [] => false
  let inside := if negated then marks.drop 1 else marks
  (readRanges (inside.length + 1) inside).map fun (ranges, length) =>
    (.oneOf negated ranges, length + if negated then 1 else 0)

/-! ## Reading -/

/-- Reads a pattern; the first `skip` characters belong to an item that is read already. -/
def ofMarksFrom (skip : Nat) : List Mark → Pattern
  | [] => []
  | mark :: rest =>
    match skip with
    | skip + 1 => ofMarksFrom skip rest
    | 0 =>
      if mark.is '*' then .many :: ofMarksFrom 0 rest
      else if mark.is '?' then .any :: ofMarksFrom 0 rest
      else match mark.is '[', bracketAt? rest with
        | true, some (item, length) => item :: ofMarksFrom length rest
        | _, _ => .exactly mark.char :: ofMarksFrom 0 rest

def ofMarks (marks : List Mark) : Pattern := ofMarksFrom 0 marks

/-- Whether a pattern stands for more than one text. -/
def isProper (p : Pattern) : Bool :=
  p.any fun item => match item with
    | .exactly _ => false
    | _ => true

/-! ## Matching -/

/-- A text without its first characters, from none to all of them. -/
def suffixes : List Char → List (List Char)
  | [] => [[]]
  | c :: rest => (c :: rest) :: suffixes rest

/-- What can be left of a text behind a beginning that matches. -/
def rests : Pattern → List Char → List (List Char)
  | [], text => [text]
  | .many :: items, text => (suffixes text).flatMap (rests items)
  | .any :: items, text =>
    match text with
    | _ :: text => rests items text
    | [] => []
  | .exactly c :: items, text =>
    match text with
    | c' :: text => if c = c' then rests items text else []
    | [] => []
  | .oneOf negated ranges :: items, text =>
    match text with
    | c :: text =>
      if (ranges.any fun (a, b) => a ≤ c && c ≤ b) != negated then rests items text else []
    | [] => []

def fits (p : Pattern) (text : List Char) : Bool :=
  (p.rests text).any (·.isEmpty)

/-- A text without the shortest or longest beginning that matches. -/
def trimStart (p : Pattern) (longest : Bool) (text : List Char) : List Char :=
  let best (a b : List Char) : List Char :=
    if (if longest then b.length < a.length else a.length < b.length) then b else a
  match p.rests text with
  | [] => text
  | first :: others => others.foldl best first

/-- A text without the shortest or longest end that matches. -/
def trimEnd (p : Pattern) (longest : Bool) (text : List Char) : List Char :=
  let ends := (suffixes text).filter p.fits
  match if longest then ends.head? else ends.getLast? with
  | some last => text.take (text.length - last.length)
  | none => text

end Pattern

end LayeredConfig.Shell
