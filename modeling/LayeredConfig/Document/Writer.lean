import LayeredConfig.Document.Line
import LayeredConfig.Document.Scalar

/-!
# Writing a tree

A tree is written as lines. A nested block stands four columns deeper than its key; the first key
of a mapping inside a sequence stands on the line of the dash and the others line up with it.
-/

namespace LayeredConfig.Tree

/-- How much deeper a nested block stands. -/
def indentStep : Nat := 4

def commentLines (indent : Nat) (comments : List String) : List Line :=
  comments.map fun text => .comment indent text.toList

/-- A comment at the end of a line, behind one space. -/
def trailing (comment : Option String) : List Char :=
  match comment with
  | none => []
  | some text => ' ' :: text.toList

/-- A key as it is written; anything but a scalar is written as an empty text. -/
def keyText : Tree → List Char
  | scalar _ text style => Scalar.render text.toList style
  | _ => ['"', '"']

/-- The part of a value that stands on the line of its key or dash. -/
def inlineText : Tree → List Char
  | scalar _ text style =>
    if text.toList.isEmpty && style = .plain then [] else ' ' :: Scalar.render text.toList style
  | mapping _ [] => [' ', '\x7b', '\x7d']
  | sequence _ [] => [' ', '[', ']']
  | _ => []

/-- The line that holds a key and the inline part of its value. -/
def keyLine (indent : Nat) (lead : List Char) (key value : Tree) : Line :=
  .content indent (lead ++ keyText key ++ ':' :: inlineText value ++ trailing key.comments.line)

mutual

/-- The lines of a value below the line of its key or dash. -/
def block (indent : Nat) : Tree → List Line
  | scalar .. => []
  | mapping _ [] => []
  | mapping c entries => entryLines indent entries ++ commentLines indent c.foot
  | sequence _ items => itemLines indent items

def entryLines (indent : Nat) : List (Tree × Tree) → List Line
  | [] => []
  | (key, value) :: rest =>
    commentLines indent key.comments.head ++ keyLine indent [] key value ::
      block (indent + indentStep) value ++ entryLines indent rest

def itemLines (indent : Nat) : List Tree → List Line
  | [] => []
  | mapping c ((key, value) :: entries) :: rest =>
    commentLines indent c.head ++ commentLines indent key.comments.head ++
      keyLine indent ['-', ' '] key value :: block (indent + 2 + indentStep) value ++
      entryLines (indent + 2) entries ++ itemLines indent rest
  | item :: rest =>
    commentLines indent item.comments.head ++
      .content indent ('-' :: inlineText item ++ trailing item.comments.line) ::
      block (indent + indentStep) item ++ itemLines indent rest

end

def isExcluded (exclude : List String) (key : Tree) : Bool :=
  match key.text? with
  | some text => exclude.contains text
  | none => false

def closedLine (text : List Char) (c : Comments) : List Line :=
  .content 0 (text ++ trailing c.line) :: commentLines 0 c.foot

/-- The lines of a file that holds one tree, without the top-level keys in `exclude`. -/
def fileLines (exclude : List String) (t : Tree) : List Line :=
  commentLines 0 t.comments.head ++
    match t with
    | scalar c text style => closedLine (Scalar.render text.toList style) c
    | sequence c [] => closedLine ['[', ']'] c
    | sequence c items => itemLines 0 items ++ commentLines 0 c.foot
    | mapping c entries =>
      match entries.filter fun entry => !isExcluded exclude entry.1 with
      | [] => closedLine ['\x7b', '\x7d'] c
      | visible => entryLines 0 visible ++ commentLines 0 c.foot

def encode (exclude : List String) (t : Tree) : String :=
  String.ofList (Line.renderAll (fileLines exclude t))

end LayeredConfig.Tree
