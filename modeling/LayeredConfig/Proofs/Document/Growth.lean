import LayeredConfig.Proofs.Document.Edit
import LayeredConfig.Proofs.Document.Layout

/-!
# Growing documents

A document grows by nodes behind those of its table, and a mapping or a sequence by references to
them. Whether a block is put into the table as a whole, or its first node first and then the nodes
below it one block after the other, the table is the same in the end.
-/

namespace LayeredConfig.Document

/-! ## Nodes at the end of the table -/

/-- More nodes behind those of the table. -/
def extend (d : Document) (stored : List Node) : Document :=
  { d with nodes := d.nodes ++ stored.toArray }

section

variable {d : Document} {id : NodeId} {f g : Node → Node} {a b : List Node}

@[simp] theorem size_extend (d : Document) (stored : List Node) :
    (d.extend stored).nodes.size = d.nodes.size + stored.length := by
  simp [extend]

theorem extend_nil (d : Document) : d.extend [] = d := by
  rw [extend, Array.append_empty]

theorem extend_extend (d : Document) (a b : List Node) :
    (d.extend a).extend b = d.extend (a ++ b) := by
  simp [extend]

theorem addNode_eq (d : Document) (kind : NodeKind) :
    d.addNode kind = (d.extend [⟨kind, {}⟩], ⟨d.nodes.size⟩) := by
  rw [addNode, extend, ← Array.push_eq_append]

theorem addTree_eq (d : Document) (t : Tree) :
    d.addTree t = (d.extend (layout d.nodes.size t), ⟨d.nodes.size⟩) :=
  rfl

theorem modify_modify (d : Document) (id : NodeId) (f g : Node → Node) :
    (d.modify id f).modify id g = d.modify id (g ∘ f) := by
  rw [modify, modify, modify, Document.mk.injEq]
  refine ⟨Array.ext_getElem? fun i ↦ ?_, rfl⟩
  rw [Array.getElem?_modify, Array.getElem?_modify, Array.getElem?_modify]
  split
  · rw [Option.map_map]
  · rfl

/-- An old node is changed as if the new ones were not there. -/
theorem modify_extend (h : id.index < d.nodes.size) (f : Node → Node) (stored : List Node) :
    (d.extend stored).modify id f = (d.modify id f).extend stored := by
  rw [modify, modify, extend, extend, Document.mk.injEq]
  refine ⟨Array.ext_getElem? fun i ↦ ?_, rfl⟩
  rw [Array.getElem?_modify, Array.getElem?_append, Array.getElem?_append, Array.size_modify,
    Array.getElem?_modify]
  by_cases hi : id.index = i
  · rw [if_pos hi, if_pos hi, if_pos (hi ▸ h), if_pos (hi ▸ h)]
  · rw [if_neg hi, if_neg hi]

theorem modify_extend_new (d : Document) (f : Node → Node) (node : Node) (stored : List Node) :
    (d.extend (node :: stored)).modify ⟨d.nodes.size⟩ f = d.extend (f node :: stored) := by
  rw [modify, extend, extend, Document.mk.injEq]
  refine ⟨Array.ext_getElem? fun i ↦ ?_, rfl⟩
  rw [Array.getElem?_modify, Array.getElem?_append, Array.getElem?_append]
  dsimp only
  by_cases hi : d.nodes.size = i
  · subst hi
    rw [if_pos rfl, if_neg (Nat.lt_irrefl _), if_neg (Nat.lt_irrefl _), Nat.sub_self]
    rfl
  · rw [if_neg hi]
    split
    · rfl
    · obtain ⟨k, hk⟩ : ∃ k, i - d.nodes.size = k + 1 := ⟨i - d.nodes.size - 1, by omega⟩
      rw [hk]
      rfl

end

/-! ## Growing nodes -/

/-- More entries behind those of a mapping. -/
def addEntries (more : List (NodeId × NodeId)) (node : Node) : Node :=
  match node.kind with
  | .mapping entries => { node with kind := .mapping (entries ++ more) }
  | _ => node

/-- More items behind those of a sequence. -/
def addItems (more : List NodeId) (node : Node) : Node :=
  match node.kind with
  | .sequence items => { node with kind := .sequence (items ++ more) }
  | _ => node

theorem addEntries_nil : addEntries [] = id := by
  funext ⟨kind, c⟩
  cases kind with
  | mapping entries =>
    change (⟨.mapping (entries ++ []), c⟩ : Node) = _
    rw [List.append_nil]
    rfl
  | _ => rfl

theorem addEntries_comp (a b : List (NodeId × NodeId)) :
    addEntries b ∘ addEntries a = addEntries (a ++ b) := by
  funext ⟨kind, c⟩
  cases kind with
  | mapping entries =>
    change (⟨.mapping (entries ++ a ++ b), c⟩ : Node) = ⟨.mapping (entries ++ (a ++ b)), c⟩
    rw [List.append_assoc]
  | _ => rfl

theorem addItems_nil : addItems [] = id := by
  funext ⟨kind, c⟩
  cases kind with
  | sequence items =>
    change (⟨.sequence (items ++ []), c⟩ : Node) = _
    rw [List.append_nil]
    rfl
  | _ => rfl

theorem addItems_comp (a b : List NodeId) : addItems b ∘ addItems a = addItems (a ++ b) := by
  funext ⟨kind, c⟩
  cases kind with
  | sequence items =>
    change (⟨.sequence (items ++ a ++ b), c⟩ : Node) = ⟨.sequence (items ++ (a ++ b)), c⟩
    rw [List.append_assoc]
  | _ => rfl

theorem modify_id (d : Document) (i : NodeId) : d.modify i id = d := by
  rw [modify]
  congr 1
  refine Array.ext_getElem? fun j ↦ ?_
  rw [Array.getElem?_modify]
  split
  · rw [Option.map_id]
    rfl
  · rfl

/-- The comments of a tree stand at its first node. -/
theorem modify_addTree (d : Document) (t : Tree) (f : Comments → Comments) :
    (d.addTree t).1.modify ⟨d.nodes.size⟩ (fun node ↦ { node with comments := f node.comments }) =
      (d.addTree (t.withComments (f t.comments))).1 := by
  rw [addTree_eq, addTree_eq]
  cases t <;> exact modify_extend_new d _ _ _

/-- One entry more, whose nodes come first, and then the others. -/
theorem extend_entries {d : Document} {map : NodeId} (hmap : map.index < d.nodes.size)
    (c : Comments) (text : String) (style : ScalarStyle) (tree : Tree) (more : List (Tree × Tree)) :
    let key := Tree.scalar c text style
    let d' := (d.modify map (addEntries [(⟨d.nodes.size⟩, ⟨d.nodes.size + 1⟩)])).extend
      (⟨.scalar text style, c⟩ :: layout (d.nodes.size + 1) tree)
    (d'.modify map (addEntries (entryIds d'.nodes.size more))).extend
        (entryLayout d'.nodes.size more) =
      (d.modify map (addEntries (entryIds d.nodes.size ((key, tree) :: more)))).extend
        (entryLayout d.nodes.size ((key, tree) :: more)) := by
  intro key d'
  have hsize : d'.nodes.size = d.nodes.size + key.size + tree.size := by
    rw [size_extend, size_modify, List.length_cons, length_layout, Tree.size]
    omega
  have hmap' : map.index < (d.modify map (addEntries [(⟨d.nodes.size⟩,
      ⟨d.nodes.size + 1⟩)])).nodes.size := by
    rwa [size_modify]
  rw [hsize, modify_extend hmap', modify_modify, addEntries_comp, extend_extend]
  rfl

/-- One item more, whose nodes come first, and then the others. -/
theorem extend_items {d : Document} {seq : NodeId} (hseq : seq.index < d.nodes.size)
    (tree : Tree) (more : List Tree) :
    let d' := (d.modify seq (addItems [⟨d.nodes.size⟩])).extend (layout d.nodes.size tree)
    (d'.modify seq (addItems (itemIds d'.nodes.size more))).extend
        (itemLayout d'.nodes.size more) =
      (d.modify seq (addItems (itemIds d.nodes.size (tree :: more)))).extend
        (itemLayout d.nodes.size (tree :: more)) := by
  intro d'
  have hsize : d'.nodes.size = d.nodes.size + tree.size := by
    rw [size_extend, size_modify, length_layout]
  have hseq' : seq.index < (d.modify seq (addItems [⟨d.nodes.size⟩])).nodes.size := by
    rwa [size_modify]
  rw [hsize, modify_extend hseq', modify_modify, addItems_comp, extend_extend]
  rfl

end LayeredConfig.Document
