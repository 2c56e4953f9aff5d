/-!
# Settings trees

A settings file is a tree of scalars, mappings and sequences. A mapping is a list of entries in
file order, and a key may occur more than once. Every node carries the comments written around
it, so that a file can be written back as it was found.
-/

namespace LayeredConfig

/-- How the text of a scalar is written. -/
inductive ScalarStyle where
  | plain
  | singleQuoted
  | doubleQuoted
deriving DecidableEq, Repr

/-- The comments of one node. An empty line among the comment lines stands for a blank line. -/
structure Comments where
  head : List String := []
  line : Option String := none
  foot : List String := []
deriving DecidableEq, Repr

inductive Tree where
  | scalar (comments : Comments) (text : String) (style : ScalarStyle)
  | mapping (comments : Comments) (entries : List (Tree × Tree))
  | sequence (comments : Comments) (items : List Tree)
deriving Repr

namespace Tree

def comments : Tree → Comments
  | scalar c _ _ => c
  | mapping c _ => c
  | sequence c _ => c

def withComments (c : Comments) : Tree → Tree
  | scalar _ text style => scalar c text style
  | mapping _ entries => mapping c entries
  | sequence _ items => sequence c items

def withHead (lines : List String) (t : Tree) : Tree :=
  t.withComments { t.comments with head := lines }

def withLine (line : Option String) (t : Tree) : Tree :=
  t.withComments { t.comments with line }

def withFoot (lines : List String) (t : Tree) : Tree :=
  t.withComments { t.comments with foot := lines }

/-- The text of a scalar. -/
def text? : Tree → Option String
  | scalar _ text _ => some text
  | _ => none

@[simp] theorem comments_withComments (c : Comments) (t : Tree) :
    (t.withComments c).comments = c := by cases t <;> rfl

@[simp] theorem text?_withComments (c : Comments) (t : Tree) :
    (t.withComments c).text? = t.text? := by cases t <;> rfl

/-! ## Size -/

mutual

/-- The number of nodes. -/
def size : Tree → Nat
  | scalar .. => 1
  | mapping _ entries => 1 + entriesSize entries
  | sequence _ items => 1 + itemsSize items

def entriesSize : List (Tree × Tree) → Nat
  | [] => 0
  | (key, value) :: rest => key.size + value.size + entriesSize rest

def itemsSize : List Tree → Nat
  | [] => 0
  | item :: rest => item.size + itemsSize rest

end

theorem size_pos (t : Tree) : 0 < t.size := by
  cases t <;> simp only [size] <;> omega

/-! ## Equality -/

mutual

def same : Tree → Tree → Bool
  | scalar c text style, scalar c' text' style' => c = c' && text = text' && style = style'
  | mapping c entries, mapping c' entries' => c = c' && sameEntries entries entries'
  | sequence c items, sequence c' items' => c = c' && sameItems items items'
  | _, _ => false

def sameEntries : List (Tree × Tree) → List (Tree × Tree) → Bool
  | [], [] => true
  | (key, value) :: rest, (key', value') :: rest' =>
    same key key' && same value value' && sameEntries rest rest'
  | _, _ => false

def sameItems : List Tree → List Tree → Bool
  | [], [] => true
  | item :: rest, item' :: rest' => same item item' && sameItems rest rest'
  | _, _ => false

end

mutual

theorem same_iff : ∀ a b : Tree, same a b = true ↔ a = b
  | scalar .., b => by cases b <;> simp [same, and_assoc]
  | mapping _ entries, b => by cases b <;> simp [same, sameEntries_iff entries]
  | sequence _ items, b => by cases b <;> simp [same, sameItems_iff items]

theorem sameEntries_iff : ∀ a b : List (Tree × Tree), sameEntries a b = true ↔ a = b
  | [], b => by cases b <;> simp [sameEntries]
  | (key, value) :: rest, b => by
    rcases b with _ | ⟨⟨key', value'⟩, rest'⟩
    · simp [sameEntries]
    · simp [sameEntries, same_iff key, same_iff value, sameEntries_iff rest]

theorem sameItems_iff : ∀ a b : List Tree, sameItems a b = true ↔ a = b
  | [], b => by cases b <;> simp [sameItems]
  | item :: rest, b => by
    cases b <;> simp [sameItems, same_iff item, sameItems_iff rest]

end

instance : DecidableEq Tree := fun a b => decidable_of_iff _ (same_iff a b)

end Tree

end LayeredConfig
