import LayeredConfig.Proofs.Document.Orderly
import LayeredConfig.Proofs.Document.ReadBack

/-!
# Documents survive being written

A document that was read from a file, or that was new, may be edited in any of its mappings, any
number of times. The text that is written for it is read again, the tree that is read has the
same shape, keys and texts, and a second writing gives the same text.
-/

namespace LayeredConfig.Document

/-- A change of one mapping. -/
inductive Edit where
  | setText (map : NodeId) (key text : String)
  | removeEntry (map : NodeId) (key : String)
  | ensureMapping (map : NodeId) (key : String)

/-- An edit that fails changes nothing. -/
def edit (d : Document) : Edit → Document
  | .setText map key text =>
    match d.setText map key text with
    | .ok (d', _) => d'
    | .error _ => d
  | .removeEntry map key =>
    match d.removeEntry map key with
    | some (d', _) => d'
    | none => d
  | .ensureMapping map key =>
    match d.ensureMapping map key with
    | .ok (d', _) => d'
    | .error _ => d

def editAll (d : Document) (edits : List Edit) : Document :=
  edits.foldl edit d

/-! ## Invariants of edits -/

section

variable {P : Document → Prop} {d : Document}
  (hset : ∀ {d d' : Document} {map : NodeId} {key text : String} {entry : Entry},
    P d → d.setText map key text = .ok (d', entry) → P d')
  (hremove : ∀ {d d' : Document} {map : NodeId} {key : String} {entry : Entry},
    P d → d.removeEntry map key = some (d', entry) → P d')
  (hensure : ∀ {d d' : Document} {map value : NodeId} {key : String},
    P d → d.ensureMapping map key = .ok (d', value) → P d')

include hset hremove hensure

/-- What every edit that succeeds keeps holds behind any edit. -/
theorem edit_invariant (h : P d) (e : Edit) : P (d.edit e) := by
  cases e with
  | setText map key text =>
    simp only [edit]
    split
    · rename_i heq
      exact hset h heq
    · exact h
  | removeEntry map key =>
    simp only [edit]
    split
    · rename_i heq
      exact hremove h heq
    · exact h
  | ensureMapping map key =>
    simp only [edit]
    split
    · rename_i heq
      exact hensure h heq
    · exact h

theorem editAll_invariant (h : P d) (edits : List Edit) : P (d.editAll edits) := by
  induction edits generalizing d with
  | nil => exact h
  | cons e edits ih => exact ih (edit_invariant hset hremove hensure h e)

end

/-! ## Orderly tables -/

theorem Orderly.edit {d : Document} {isKey : NodeId → Prop} (h : d.Orderly isKey) (e : Edit) :
    ∃ isKey', (d.edit e).Orderly isKey' :=
  edit_invariant (P := fun d ↦ ∃ isKey, d.Orderly isKey) (fun ⟨_, h⟩ heq ↦ h.setText heq)
    (fun ⟨_, h⟩ heq ↦ ⟨_, h.removeEntry heq⟩) (fun ⟨_, h⟩ heq ↦ h.ensureMapping heq) ⟨isKey, h⟩ e

theorem Orderly.editAll {d : Document} {isKey : NodeId → Prop} (h : d.Orderly isKey)
    (edits : List Edit) : ∃ isKey', (d.editAll edits).Orderly isKey' :=
  editAll_invariant (P := fun d ↦ ∃ isKey, d.Orderly isKey) (fun ⟨_, h⟩ heq ↦ h.setText heq)
    (fun ⟨_, h⟩ heq ↦ ⟨_, h.removeEntry heq⟩) (fun ⟨_, h⟩ heq ↦ h.ensureMapping heq) ⟨isKey, h⟩ edits

theorem orderly_of_start {start : Document}
    (h : (∃ text, parse text = .ok start) ∨ start = empty) : ∃ isKey, start.Orderly isKey := by
  rcases h with ⟨text, h⟩ | rfl
  · exact orderly_of_parse h
  · exact ⟨_, orderly_root Comments.inner_none.toLegible⟩

/-! ## Writing and reading -/

/-- What was written for a file is read as that file. -/
theorem parse_encode {t : Tree} (h : t.IsFile) :
    parse (t.encode []) = .ok (ofFile t.rereadFile) := by
  obtain ⟨content, hread, hroot⟩ := Reader.read_encode h
  obtain ⟨tree, htree, hfoot⟩ := Option.map_eq_some_iff.1 hroot
  rw [parse, hread, ok_bind, htree]
  dsimp only
  rw [hfoot]
  rfl

/-- Whatever is edited, the text of a document is read again as the same tree, and writing it once
more changes nothing. -/
theorem parse_encode_editAll {start : Document}
    (hstart : (∃ text, parse text = .ok start) ∨ start = empty) (edits : List Edit) :
    let d := start.editAll edits
    ∃ t d' t', d.tree? = some t ∧ parse (d.encode d.root []) = .ok d' ∧ d'.tree? = some t' ∧
      t'.bare = t.bare ∧ d'.encode d'.root [] = d.encode d.root [] := by
  intro d
  obtain ⟨isKey, horderly⟩ := orderly_of_start hstart
  obtain ⟨isKey', horderly'⟩ := horderly.editAll edits
  obtain ⟨t, htree, hfile⟩ := horderly'.exists_tree
  have htext : d.encode d.root [] = t.encode [] := encode_of_treeAt? htree []
  have hreread : (ofFile t.rereadFile).tree? = some t.rereadFile := tree?_ofFile _
  refine ⟨t, ofFile t.rereadFile, t.rereadFile, htree, ?_, hreread, Tree.bare_rereadFile t, ?_⟩
  · rw [htext]
    exact parse_encode hfile
  · rw [encode_of_treeAt? hreread, htext, Tree.encode, Tree.encode, Tree.fileLines_rereadFile hfile]

theorem parse_encode_editAll_empty :
    let d := empty.editAll [.setText ⟨0⟩ "editor" "vim # not a comment", .ensureMapping ⟨0⟩ "hosts",
      .setText ⟨4⟩ "- dash: colon" "", .removeEntry ⟨0⟩ "editor"]
    ∃ t d' t', d.tree? = some t ∧ parse (d.encode d.root []) = .ok d' ∧ d'.tree? = some t' ∧
      t'.bare = t.bare ∧ d'.encode d'.root [] = d.encode d.root [] :=
  parse_encode_editAll (.inr rfl) _

end LayeredConfig.Document
