import LayeredConfig.Proofs.Document.Edit
import LayeredConfig.Proofs.Document.Layout
import LayeredConfig.Proofs.Document.TreeEdit

/-!
# Trees and their places in the table

A tree that hangs from a node takes certain places of the table. When no place is taken twice,
nothing is shared, and what happens at the places of one value happens to that value alone.
-/

namespace LayeredConfig.Document

open LayeredConfig.Tree

/-! ## Places -/

mutual

/-- A tree hangs from a node, and these are the places of its nodes. -/
inductive Hangs (d : Document) : Tree → NodeId → List NodeId → Prop
  | scalar {c : Comments} {text : String} {style : ScalarStyle} {id : NodeId}
      (node : d.node? id = some ⟨.scalar text style, c⟩) : Hangs d (.scalar c text style) id [id]
  | mapping {c : Comments} {trees : List (Tree × Tree)} {entries : List (NodeId × NodeId)}
      {id : NodeId} {places : List NodeId} (node : d.node? id = some ⟨.mapping entries, c⟩)
      (below : HangEntries d trees entries places) : Hangs d (.mapping c trees) id (id :: places)
  | sequence {c : Comments} {trees : List Tree} {items : List NodeId} {id : NodeId}
      {places : List NodeId} (node : d.node? id = some ⟨.sequence items, c⟩)
      (below : HangItems d trees items places) : Hangs d (.sequence c trees) id (id :: places)

inductive HangEntries (d : Document) :
    List (Tree × Tree) → List (NodeId × NodeId) → List NodeId → Prop
  | nil : HangEntries d [] [] []
  | cons {key value : Tree} {rest : List (Tree × Tree)} {k v : NodeId}
      {entries : List (NodeId × NodeId)} {keyPlaces valuePlaces places : List NodeId}
      (hkey : Hangs d key k keyPlaces) (hvalue : Hangs d value v valuePlaces)
      (hrest : HangEntries d rest entries places) :
      HangEntries d ((key, value) :: rest) ((k, v) :: entries) (keyPlaces ++ (valuePlaces ++ places))

inductive HangItems (d : Document) : List Tree → List NodeId → List NodeId → Prop
  | nil : HangItems d [] [] []
  | cons {item : Tree} {rest : List Tree} {i : NodeId} {items : List NodeId}
      {itemPlaces places : List NodeId} (hitem : Hangs d item i itemPlaces)
      (hrest : HangItems d rest items places) :
      HangItems d (item :: rest) (i :: items) (itemPlaces ++ places)

end

section

variable {d d' : Document} {t : Tree} {id map : NodeId} {places : List NodeId} {key : String}
  {trees : List (Tree × Tree)} {entries : List (NodeId × NodeId)}

mutual

/-- A tree hangs on when the nodes at its places stay. -/
theorem Hangs.frame {t : Tree} {id : NodeId} {places : List NodeId} (h : Hangs d t id places)
    (hsame : ∀ i ∈ places, d'.node? i = d.node? i) : Hangs d' t id places :=
  match h with
  | .scalar node => .scalar ((hsame _ List.mem_cons_self).trans node)
  | .mapping node below =>
    .mapping ((hsame _ List.mem_cons_self).trans node)
      (below.frame fun i hmem ↦ hsame i (List.mem_cons_of_mem _ hmem))
  | .sequence node below =>
    .sequence ((hsame _ List.mem_cons_self).trans node)
      (below.frame fun i hmem ↦ hsame i (List.mem_cons_of_mem _ hmem))

theorem HangEntries.frame {trees : List (Tree × Tree)} {entries : List (NodeId × NodeId)}
    {places : List NodeId} (h : HangEntries d trees entries places)
    (hsame : ∀ i ∈ places, d'.node? i = d.node? i) : HangEntries d' trees entries places :=
  match h with
  | .nil => .nil
  | .cons hkey hvalue hrest =>
    .cons (hkey.frame fun i hmem ↦ hsame i (List.mem_append_left _ hmem))
      (hvalue.frame fun i hmem ↦ hsame i (List.mem_append_right _ (List.mem_append_left _ hmem)))
      (hrest.frame fun i hmem ↦ hsame i (List.mem_append_right _ (List.mem_append_right _ hmem)))

theorem HangItems.frame {trees : List Tree} {items places : List NodeId}
    (h : HangItems d trees items places) (hsame : ∀ i ∈ places, d'.node? i = d.node? i) :
    HangItems d' trees items places :=
  match h with
  | .nil => .nil
  | .cons hitem hrest =>
    .cons (hitem.frame fun i hmem ↦ hsame i (List.mem_append_left _ hmem))
      (hrest.frame fun i hmem ↦ hsame i (List.mem_append_right _ hmem))

end

mutual

theorem Hangs.lt_size {t : Tree} {id : NodeId} {places : List NodeId} (h : Hangs d t id places) :
    ∀ i ∈ places, i.index < d.nodes.size :=
  match h with
  | .scalar node => List.forall_mem_singleton.2 (lt_size_of_node? node)
  | .mapping node below => List.forall_mem_cons.2 ⟨lt_size_of_node? node, below.lt_size⟩
  | .sequence node below => List.forall_mem_cons.2 ⟨lt_size_of_node? node, below.lt_size⟩

theorem HangEntries.lt_size {trees : List (Tree × Tree)} {entries : List (NodeId × NodeId)}
    {places : List NodeId} (h : HangEntries d trees entries places) :
    ∀ i ∈ places, i.index < d.nodes.size :=
  match h with
  | .nil => List.forall_mem_nil _
  | .cons hkey hvalue hrest =>
    List.forall_mem_append.2 ⟨hkey.lt_size, List.forall_mem_append.2 ⟨hvalue.lt_size, hrest.lt_size⟩⟩

theorem HangItems.lt_size {trees : List Tree} {items places : List NodeId}
    (h : HangItems d trees items places) : ∀ i ∈ places, i.index < d.nodes.size :=
  match h with
  | .nil => List.forall_mem_nil _
  | .cons hitem hrest => List.forall_mem_append.2 ⟨hitem.lt_size, hrest.lt_size⟩

end

mutual

theorem Hangs.length_places {t : Tree} {id : NodeId} {places : List NodeId}
    (h : Hangs d t id places) : places.length = t.size :=
  match h with
  | .scalar _ => rfl
  | .mapping _ below => by rw [List.length_cons, below.length_places, Tree.size, Nat.add_comm]
  | .sequence _ below => by rw [List.length_cons, below.length_places, Tree.size, Nat.add_comm]

theorem HangEntries.length_places {trees : List (Tree × Tree)} {entries : List (NodeId × NodeId)}
    {places : List NodeId} (h : HangEntries d trees entries places) :
    places.length = Tree.entriesSize trees :=
  match h with
  | .nil => rfl
  | .cons hkey hvalue hrest => by
    rw [List.length_append, List.length_append, hkey.length_places, hvalue.length_places,
      hrest.length_places, Tree.entriesSize, Nat.add_assoc]

theorem HangItems.length_places {trees : List Tree} {items places : List NodeId}
    (h : HangItems d trees items places) : places.length = Tree.itemsSize trees :=
  match h with
  | .nil => rfl
  | .cons hitem hrest => by
    rw [List.length_append, hitem.length_places, hrest.length_places, Tree.itemsSize]

end

mutual

/-- A tree that hangs from a node unfolds from it. -/
theorem Hangs.unfold {t : Tree} {id : NodeId} {places : List NodeId} (h : Hangs d t id places)
    {depth : Nat} (hdepth : t.size ≤ depth) : unfold d.nodes depth id = some t :=
  match h, depth with
  | _, 0 => absurd t.size_pos (by omega)
  | .scalar node, depth + 1 => unfold_scalar depth node
  | .mapping node below, depth + 1 => by
    rw [Tree.size] at hdepth
    rw [unfold_mapping depth node, below.unfold (by omega)]
    rfl
  | .sequence node below, depth + 1 => by
    rw [Tree.size] at hdepth
    rw [unfold_sequence depth node, below.unfold (by omega)]
    rfl

theorem HangEntries.unfold {trees : List (Tree × Tree)} {entries : List (NodeId × NodeId)}
    {places : List NodeId} (h : HangEntries d trees entries places) {depth : Nat}
    (hdepth : Tree.entriesSize trees ≤ depth) :
    entries.mapM (unfoldEntry d.nodes depth) = some trees :=
  match h with
  | .nil => rfl
  | .cons hkey hvalue hrest => by
    rw [Tree.entriesSize] at hdepth
    rw [List.mapM_cons, unfoldEntry, hkey.unfold (by omega), hvalue.unfold (by omega),
      hrest.unfold (by omega)]
    rfl

theorem HangItems.unfold {trees : List Tree} {items places : List NodeId}
    (h : HangItems d trees items places) {depth : Nat} (hdepth : Tree.itemsSize trees ≤ depth) :
    items.mapM (Document.unfold d.nodes depth) = some trees :=
  match h with
  | .nil => rfl
  | .cons hitem hrest => by
    rw [Tree.itemsSize] at hdepth
    rw [List.mapM_cons, hitem.unfold (by omega), hrest.unfold (by omega)]
    rfl

end

/-- Places that are all different are not more than the table has. -/
theorem Hangs.treeAt? (h : Hangs d t id places) (hnodup : places.Nodup) :
    d.treeAt? id = some t := by
  apply h.unfold
  have hmap : (places.map NodeId.index).Nodup :=
    List.Pairwise.map _ (fun _ _ hne heq ↦ hne (index_inj.1 heq)) hnodup
  have hsubset : places.map NodeId.index ⊆ List.range d.nodes.size := by
    intro index hmem
    obtain ⟨i, hi, rfl⟩ := List.mem_map.1 hmem
    exact List.mem_range.2 (h.lt_size i hi)
  have hlength := hmap.length_le_of_subset hsubset
  rwa [List.length_map, List.length_range, h.length_places] at hlength

theorem encode_of_treeAt? (h : d.treeAt? id = some t) (exclude : List String) :
    d.encode id exclude = t.encode exclude := by
  rw [encode, h]

theorem Hangs.exists_node (h : Hangs d t id places) : ∃ node, d.node? id = some node := by
  cases h with
  | scalar node => exact ⟨_, node⟩
  | mapping node => exact ⟨_, node⟩
  | sequence node => exact ⟨_, node⟩

theorem Hangs.eq_scalar {text : String} {style : ScalarStyle} {c : Comments}
    (h : Hangs d t id places) (hnode : d.node? id = some ⟨.scalar text style, c⟩) :
    t = .scalar c text style ∧ places = [id] := by
  cases h with
  | scalar node =>
    rw [hnode] at node
    cases node
    exact ⟨rfl, rfl⟩
  | mapping node =>
    rw [hnode] at node
    cases node
  | sequence node =>
    rw [hnode] at node
    cases node

theorem Hangs.scalar?_eq (h : Hangs d t id places) : d.scalar? id = t.text? := by
  cases h with
  | scalar node =>
    rw [scalar?, node]
    rfl
  | mapping node =>
    rw [scalar?, node]
    rfl
  | sequence node =>
    rw [scalar?, node]
    rfl

theorem Hangs.isMapping_eq (h : Hangs d t id places) : d.isMapping id = t.isMapping := by
  cases h with
  | scalar node =>
    rw [Document.isMapping, node]
    rfl
  | mapping node =>
    rw [Document.isMapping, node]
    rfl
  | sequence node =>
    rw [Document.isMapping, node]
    rfl

theorem HangEntries.append {trees trees' : List (Tree × Tree)}
    {entries entries' : List (NodeId × NodeId)} {places places' : List NodeId}
    (h : HangEntries d trees entries places) (h' : HangEntries d trees' entries' places') :
    HangEntries d (trees ++ trees') (entries ++ entries') (places ++ places') :=
  match h with
  | .nil => h'
  | .cons hkey hvalue hrest => by
    rw [List.append_assoc, List.append_assoc]
    exact .cons hkey hvalue (hrest.append h')

/-! ## Added trees -/

/-- The places of a tree that is laid out from `base`. -/
def span (base size : Nat) : List NodeId :=
  (List.range' base size).map NodeId.mk

theorem span_succ (base size : Nat) : span base (1 + size) = ⟨base⟩ :: span (base + 1) size := by
  rw [span, Nat.add_comm, List.range'_succ]
  rfl

theorem span_append (base m n : Nat) : span base (m + n) = span base m ++ span (base + m) n := by
  rw [span, ← List.range'_append_1, List.map_append]
  rfl

theorem mem_span {base size : Nat} {i : NodeId} :
    i ∈ span base size ↔ base ≤ i.index ∧ i.index < base + size := by
  rw [span, List.mem_map]
  constructor
  · rintro ⟨index, hindex, rfl⟩
    exact List.mem_range'_1.1 hindex
  · intro h
    exact ⟨i.index, List.mem_range'_1.2 h, rfl⟩

theorem nodup_span (base size : Nat) : (span base size).Nodup :=
  List.Pairwise.map _ (fun _ _ hne heq ↦ hne (NodeId.mk.inj heq)) List.nodup_range'

mutual

theorem hangs_layout : ∀ (t : Tree) {base : Nat}, Segment d.nodes base (layout base t) →
    Hangs d t ⟨base⟩ (span base t.size)
  | .scalar c text style, base, h => .scalar (segment_cons.1 h).1
  | .mapping c entries, base, h => by
    obtain ⟨hnode, hrest⟩ := segment_cons.1 h
    rw [Tree.size, span_succ]
    exact .mapping hnode (hangEntries_layout entries hrest)
  | .sequence c items, base, h => by
    obtain ⟨hnode, hrest⟩ := segment_cons.1 h
    rw [Tree.size, span_succ]
    exact .sequence hnode (hangItems_layout items hrest)

theorem hangEntries_layout : ∀ (entries : List (Tree × Tree)) {base : Nat},
    Segment d.nodes base (entryLayout base entries) →
    HangEntries d entries (entryIds base entries) (span base (Tree.entriesSize entries))
  | [], _, _ => .nil
  | (key, value) :: rest, base, h => by
    rw [entryLayout, segment_append, segment_append, List.length_append, length_layout,
      length_layout, ← Nat.add_assoc] at h
    obtain ⟨⟨hkey, hvalue⟩, hrest⟩ := h
    rw [Tree.entriesSize, Nat.add_assoc, span_append, span_append]
    exact .cons (hangs_layout key hkey) (hangs_layout value hvalue) (hangEntries_layout rest hrest)

theorem hangItems_layout : ∀ (items : List Tree) {base : Nat},
    Segment d.nodes base (itemLayout base items) →
    HangItems d items (itemIds base items) (span base (Tree.itemsSize items))
  | [], _, _ => .nil
  | item :: rest, base, h => by
    rw [itemLayout, segment_append, length_layout] at h
    rw [Tree.itemsSize, span_append]
    exact .cons (hangs_layout item h.1) (hangItems_layout rest h.2)

end

theorem node?_addTree {i : NodeId} (hi : i.index < d.nodes.size) (t : Tree) :
    (d.addTree t).1.node? i = d.node? i :=
  Array.getElem?_append_left hi

theorem hangs_addTree (d : Document) (t : Tree) :
    Hangs (d.addTree t).1 t (d.addTree t).2 (span d.nodes.size t.size) :=
  hangs_layout t (segment_addTree d t)

/-- A tree that was added hangs from the node that was given for it. -/
theorem treeAt?_addTree (d : Document) (t : Tree) :
    (d.addTree t).1.treeAt? (d.addTree t).2 = some t :=
  (hangs_addTree d t).treeAt? (nodup_span _ _)

end

end LayeredConfig.Document
