import LayeredConfig.Proofs.Document.Cycles

/-!
# Trees that share nodes

A node may be referred to from several places, within one tree as well. A tree unfolds from a node
exactly when it hangs from it, in whatever table and to whatever depth it was unfolded, and a
mapping stands at none of the places below it.
-/

namespace LayeredConfig.Document

open Relation

section

variable {d : Document} {id map : NodeId} {t u : Tree} {places places' : List NodeId}
  {m n : Nat}

/-! ## Unfolding to another depth -/

theorem mapM_eq_some_of_imp {α β : Type} {f g : α → Option β} {as : List α} {bs : List β}
    (h : as.mapM f = some bs) (himp : ∀ a ∈ as, ∀ b, f a = some b → g a = some b) :
    as.mapM g = some bs := by
  induction as generalizing bs with
  | nil => exact h
  | cons a as ih =>
    rw [List.forall_mem_cons] at himp
    obtain ⟨b, rest, hb, hrest, hbs⟩ := mapM_cons_eq_some_iff.1 h
    exact mapM_cons_eq_some_iff.2 ⟨b, rest, himp.1 b hb, ih hrest himp.2, hbs⟩

theorem lt_size_of_unfold (h : unfold d.nodes n id = some t) : id.index < d.nodes.size := by
  refine Nat.lt_of_not_le fun hle ↦ ?_
  cases n with
  | zero => cases h
  | succ n =>
    rw [unfold, Array.getElem?_eq_none hle] at h
    cases h

theorem refers_of_entry {entry : NodeId × NodeId} (h : entry ∈ d.entries map) :
    d.Refers map entry.1 ∧ d.Refers map entry.2 := by
  obtain ⟨hkey, hvalue⟩ := mem_children_of_entry h
  exact ⟨List.mem_append_left _ hkey, List.mem_append_right _ hvalue⟩

/-- A node unfolds to its tree when the nodes it refers to unfold to theirs. -/
theorem unfold_of_children (h : unfold d.nodes (n + 1) id = some t)
    (himp : ∀ child, d.Refers id child → ∀ u, unfold d.nodes n child = some u →
      unfold d.nodes m child = some u) : unfold d.nodes (m + 1) id = some t := by
  obtain ⟨⟨kind, c⟩, hnode⟩ := exists_node (lt_size_of_unfold h)
  cases kind with
  | scalar text style =>
    rw [unfold_scalar n hnode] at h
    rwa [unfold_scalar m hnode]
  | mapping entries =>
    rw [unfold_mapping n hnode] at h
    obtain ⟨trees, htrees, rfl⟩ := Option.map_eq_some_iff.1 h
    rw [unfold_mapping m hnode, mapM_eq_some_of_imp htrees, Option.map_some]
    rintro entry hmem ⟨k, v⟩ hpair
    obtain ⟨hk, hv⟩ := unfoldEntry_eq_some_iff.1 hpair
    obtain ⟨hkey, hvalue⟩ := refers_of_entry ((entries_eq hnode).symm ▸ hmem)
    exact unfoldEntry_eq_some_iff.2 ⟨himp entry.1 hkey k hk, himp entry.2 hvalue v hv⟩
  | sequence items =>
    rw [unfold_sequence n hnode] at h
    obtain ⟨trees, htrees, rfl⟩ := Option.map_eq_some_iff.1 h
    rw [unfold_sequence m hnode, mapM_eq_some_of_imp htrees, Option.map_some]
    refine fun item hmem ↦ himp item ?_
    rwa [Refers, kindAt_eq hnode]

/-- No path down a tree is longer than the table, so the depth of the table is deep enough. -/
theorem unfold_of_path (h : unfold d.nodes n id = some t) {above : List NodeId}
    (hnodup : above.Nodup)
    (habove : ∀ a ∈ above, a.index < d.nodes.size ∧ TransGen d.Refers a id)
    (hdepth : d.nodes.size ≤ m + above.length) : unfold d.nodes m id = some t := by
  have hnot : id ∉ above := by
    intro hmem
    rw [unfold_of_cycle (habove id hmem).2] at h
    cases h
  induction n generalizing m id t above with
  | zero => cases h
  | succ n ih =>
    have hid : id.index < d.nodes.size := lt_size_of_unfold h
    have hnodup' : (id :: above).Nodup := List.nodup_cons.2 ⟨hnot, hnodup⟩
    cases m with
    | zero =>
      -- This node and those above it are more places than the table has.
      have hlength : (id :: above).length ≤ d.nodes.size :=
        length_le_size hnodup' (List.forall_mem_cons.2 ⟨hid, fun a ha ↦ (habove a ha).1⟩)
      rw [List.length_cons] at hlength
      omega
    | succ m =>
      refine unfold_of_children h fun child hrefers u hu ↦ ?_
      have habove' : ∀ a ∈ id :: above, a.index < d.nodes.size ∧ TransGen d.Refers a child :=
        List.forall_mem_cons.2 ⟨⟨hid, .single hrefers⟩,
          fun a ha ↦ ⟨(habove a ha).1, (habove a ha).2.tail hrefers⟩⟩
      refine ih hu hnodup' habove' ?_ fun hmem ↦ ?_
      · rw [List.length_cons]
        omega
      · rw [unfold_of_cycle (habove' child hmem).2] at hu
        cases hu

theorem treeAt?_of_unfold (h : unfold d.nodes n id = some t) : d.treeAt? id = some t :=
  unfold_of_path h List.nodup_nil (List.forall_mem_nil _) (Nat.le_add_right _ _)

/-! ## Unfolding and hanging -/

theorem hangEntries_of_mapM {entries : List (NodeId × NodeId)} {trees : List (Tree × Tree)}
    (hhangs : ∀ id t, unfold d.nodes n id = some t → ∃ places, Hangs d t id places)
    (h : entries.mapM (unfoldEntry d.nodes n) = some trees) :
    ∃ places, HangEntries d trees entries places := by
  induction entries generalizing trees with
  | nil =>
    obtain rfl := Option.some.inj h
    exact ⟨[], .nil⟩
  | cons entry entries ih =>
    obtain ⟨⟨k, v⟩, rest, hpair, hrest, rfl⟩ := mapM_cons_eq_some_iff.1 h
    obtain ⟨hk, hv⟩ := unfoldEntry_eq_some_iff.1 hpair
    obtain ⟨keyPlaces, hkey⟩ := hhangs _ _ hk
    obtain ⟨valuePlaces, hvalue⟩ := hhangs _ _ hv
    obtain ⟨places, hplaces⟩ := ih hrest
    exact ⟨_, .cons hkey hvalue hplaces⟩

theorem hangItems_of_mapM {items : List NodeId} {trees : List Tree}
    (hhangs : ∀ id t, unfold d.nodes n id = some t → ∃ places, Hangs d t id places)
    (h : items.mapM (unfold d.nodes n) = some trees) :
    ∃ places, HangItems d trees items places := by
  induction items generalizing trees with
  | nil =>
    obtain rfl := Option.some.inj h
    exact ⟨[], .nil⟩
  | cons item items ih =>
    obtain ⟨tree, rest, htree, hrest, rfl⟩ := mapM_cons_eq_some_iff.1 h
    obtain ⟨itemPlaces, hitem⟩ := hhangs _ _ htree
    obtain ⟨places, hplaces⟩ := ih hrest
    exact ⟨_, .cons hitem hplaces⟩

theorem hangs_of_unfold (h : unfold d.nodes n id = some t) : ∃ places, Hangs d t id places := by
  induction n generalizing id t with
  | zero => cases h
  | succ n ih =>
    obtain ⟨⟨kind, c⟩, hnode⟩ := exists_node (lt_size_of_unfold h)
    cases kind with
    | scalar text style =>
      rw [unfold_scalar n hnode] at h
      obtain rfl := Option.some.inj h
      exact ⟨_, .scalar hnode⟩
    | mapping entries =>
      rw [unfold_mapping n hnode] at h
      obtain ⟨trees, htrees, rfl⟩ := Option.map_eq_some_iff.1 h
      obtain ⟨places, hplaces⟩ := hangEntries_of_mapM (fun _ _ hchild ↦ ih hchild) htrees
      exact ⟨_, .mapping hnode hplaces⟩
    | sequence items =>
      rw [unfold_sequence n hnode] at h
      obtain ⟨trees, htrees, rfl⟩ := Option.map_eq_some_iff.1 h
      obtain ⟨places, hplaces⟩ := hangItems_of_mapM (fun _ _ hchild ↦ ih hchild) htrees
      exact ⟨_, .sequence hnode hplaces⟩

/-- The tree of a node is the tree that hangs from it. -/
theorem treeAt?_eq_some_iff : d.treeAt? id = some t ↔ ∃ places, Hangs d t id places :=
  ⟨hangs_of_unfold, fun ⟨_, h⟩ ↦ treeAt?_of_unfold (h.unfold (Nat.le_refl _))⟩

theorem Hangs.eq_of_hangs (h : Hangs d t id places) (h' : Hangs d u id places') : t = u :=
  Option.some.inj ((treeAt?_eq_some_iff.2 ⟨_, h⟩).symm.trans (treeAt?_eq_some_iff.2 ⟨_, h'⟩))

/-! ## Places below a node -/

mutual

/-- What hangs from a place of a tree is not larger than the tree. -/
theorem Hangs.exists_of_mem {t : Tree} {id : NodeId} {places : List NodeId}
    (h : Hangs d t id places) {i : NodeId} (hmem : i ∈ places) :
    ∃ u below, Hangs d u i below ∧ u.size ≤ t.size :=
  match h with
  | .scalar node => by
    obtain rfl := List.mem_singleton.1 hmem
    exact ⟨_, _, .scalar node, Nat.le_refl _⟩
  | .mapping node below => by
    rcases List.mem_cons.1 hmem with rfl | hmem
    · exact ⟨_, _, .mapping node below, Nat.le_refl _⟩
    · obtain ⟨u, places, hu, hsize⟩ := below.exists_of_mem hmem
      exact ⟨u, places, hu, by rw [Tree.size]; omega⟩
  | .sequence node below => by
    rcases List.mem_cons.1 hmem with rfl | hmem
    · exact ⟨_, _, .sequence node below, Nat.le_refl _⟩
    · obtain ⟨u, places, hu, hsize⟩ := below.exists_of_mem hmem
      exact ⟨u, places, hu, by rw [Tree.size]; omega⟩

theorem HangEntries.exists_of_mem {trees : List (Tree × Tree)}
    {entries : List (NodeId × NodeId)} {places : List NodeId}
    (h : HangEntries d trees entries places) {i : NodeId} (hmem : i ∈ places) :
    ∃ u below, Hangs d u i below ∧ u.size ≤ Tree.entriesSize trees :=
  match h with
  | .nil => absurd hmem List.not_mem_nil
  | .cons hkey hvalue hrest => by
    rw [Tree.entriesSize]
    rcases List.mem_append.1 hmem with hmem | hmem
    · obtain ⟨u, places, hu, hsize⟩ := hkey.exists_of_mem hmem
      exact ⟨u, places, hu, by omega⟩
    rcases List.mem_append.1 hmem with hmem | hmem
    · obtain ⟨u, places, hu, hsize⟩ := hvalue.exists_of_mem hmem
      exact ⟨u, places, hu, by omega⟩
    · obtain ⟨u, places, hu, hsize⟩ := hrest.exists_of_mem hmem
      exact ⟨u, places, hu, by omega⟩

theorem HangItems.exists_of_mem {trees : List Tree} {items places : List NodeId}
    (h : HangItems d trees items places) {i : NodeId} (hmem : i ∈ places) :
    ∃ u below, Hangs d u i below ∧ u.size ≤ Tree.itemsSize trees :=
  match h with
  | .nil => absurd hmem List.not_mem_nil
  | .cons hitem hrest => by
    rw [Tree.itemsSize]
    rcases List.mem_append.1 hmem with hmem | hmem
    · obtain ⟨u, places, hu, hsize⟩ := hitem.exists_of_mem hmem
      exact ⟨u, places, hu, by omega⟩
    · obtain ⟨u, places, hu, hsize⟩ := hrest.exists_of_mem hmem
      exact ⟨u, places, hu, by omega⟩

end

/-- A mapping that has a tree does not stand below itself. -/
theorem HangEntries.notMem {trees : List (Tree × Tree)} {entries : List (NodeId × NodeId)}
    {c : Comments} (h : HangEntries d trees entries places)
    (hnode : d.node? map = some ⟨.mapping entries, c⟩) : map ∉ places := by
  intro hmem
  obtain ⟨u, below, hu, hsize⟩ := h.exists_of_mem hmem
  obtain rfl := hu.eq_of_hangs (.mapping hnode h)
  rw [Tree.size] at hsize
  omega

end

end LayeredConfig.Document
