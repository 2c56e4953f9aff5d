import LayeredConfig.Document.Basic

/-!
# The table of an added tree

The nodes of a tree that was added stand in the table one after the other, whatever else the table
holds.
-/

namespace LayeredConfig.Document

/-! ## Segments of the table -/

/-- These nodes stand in the table one after the other, the first of them at `base`. -/
def Segment (nodes : Array Node) (base : Nat) (stored : List Node) : Prop :=
  ∀ i < stored.length, nodes[base + i]? = stored[i]?

theorem segment_append {nodes : Array Node} {base : Nat} {a b : List Node} :
    Segment nodes base (a ++ b) ↔ Segment nodes base a ∧ Segment nodes (base + a.length) b := by
  constructor
  · intro h
    refine ⟨fun i hi ↦ ?_, fun i hi ↦ ?_⟩
    · rw [h i (by rw [List.length_append]; omega), List.getElem?_append_left hi]
    · rw [Nat.add_assoc, h (a.length + i) (by rw [List.length_append]; omega),
        List.getElem?_append_right (by omega), Nat.add_sub_cancel_left]
  · rintro ⟨ha, hb⟩ i hi
    by_cases hlt : i < a.length
    · rw [ha i hlt, List.getElem?_append_left hlt]
    · rw [List.length_append] at hi
      have h := hb (i - a.length) (by omega)
      rw [List.getElem?_append_right (by omega), ← h]
      congr 1
      omega

theorem segment_cons {nodes : Array Node} {base : Nat} {node : Node} {rest : List Node} :
    Segment nodes base (node :: rest) ↔ nodes[base]? = some node ∧ Segment nodes (base + 1) rest := by
  have happend : Segment nodes base ([node] ++ rest) ↔
      Segment nodes base [node] ∧ Segment nodes (base + 1) rest := segment_append
  rw [List.singleton_append] at happend
  rw [happend]
  refine and_congr_left fun _ ↦ ⟨fun h ↦ h 0 Nat.one_pos, fun h i hi ↦ ?_⟩
  obtain rfl : i = 0 := by
    rw [List.length_singleton] at hi
    omega
  exact h

/-! ## The size of a tree -/

mutual

theorem length_layout : ∀ (t : Tree) (base : Nat), (layout base t).length = t.size
  | .scalar .., _ => rfl
  | .mapping _ entries, base => by
    rw [layout, List.length_cons, length_entryLayout entries, Tree.size]
    omega
  | .sequence _ items, base => by
    rw [layout, List.length_cons, length_itemLayout items, Tree.size]
    omega

theorem length_entryLayout : ∀ (entries : List (Tree × Tree)) (base : Nat),
    (entryLayout base entries).length = Tree.entriesSize entries
  | [], _ => rfl
  | (key, value) :: rest, base => by
    rw [entryLayout, List.length_append, List.length_append, length_layout key,
      length_layout value, length_entryLayout rest, Tree.entriesSize]

theorem length_itemLayout : ∀ (items : List Tree) (base : Nat),
    (itemLayout base items).length = Tree.itemsSize items
  | [], _ => rfl
  | item :: rest, base => by
    rw [itemLayout, List.length_append, length_layout item, length_itemLayout rest, Tree.itemsSize]

end

/-! ## Unfolding -/

/-- Both nodes of an entry are unfolded. -/
def unfoldEntry (nodes : Array Node) (depth : Nat) (entry : NodeId × NodeId) :
    Option (Tree × Tree) := do
  return (← unfold nodes depth entry.1, ← unfold nodes depth entry.2)

theorem unfoldEntry_eq_some_iff {nodes : Array Node} {depth : Nat} {entry : NodeId × NodeId}
    {key value : Tree} : unfoldEntry nodes depth entry = some (key, value) ↔
      unfold nodes depth entry.1 = some key ∧ unfold nodes depth entry.2 = some value := by
  constructor
  · intro h
    obtain ⟨key', hkey, h⟩ := Option.bind_eq_some_iff.1 h
    obtain ⟨value', hvalue, h⟩ := Option.bind_eq_some_iff.1 h
    obtain ⟨rfl, rfl⟩ := Prod.mk.inj (Option.some.inj h)
    exact ⟨hkey, hvalue⟩
  · rintro ⟨hkey, hvalue⟩
    rw [unfoldEntry, hkey, hvalue]
    rfl

theorem mapM_cons_eq_some_iff {α β : Type} {f : α → Option β} {a : α} {as : List α}
    {bs : List β} : (a :: as).mapM f = some bs ↔
      ∃ b rest, f a = some b ∧ as.mapM f = some rest ∧ b :: rest = bs := by
  rw [List.mapM_cons]
  constructor
  · intro h
    obtain ⟨b, hb, h⟩ := Option.bind_eq_some_iff.1 h
    obtain ⟨rest, hrest, h⟩ := Option.bind_eq_some_iff.1 h
    exact ⟨b, rest, hb, hrest, Option.some.inj h⟩
  · rintro ⟨b, rest, hb, hrest, rfl⟩
    rw [hb, hrest]
    rfl

theorem unfold_scalar {nodes : Array Node} {id : NodeId} {text : String} {style : ScalarStyle}
    {c : Comments} (depth : Nat) (h : nodes[id.index]? = some ⟨.scalar text style, c⟩) :
    unfold nodes (depth + 1) id = some (.scalar c text style) := by
  rw [unfold, h]
  rfl

theorem unfold_mapping {nodes : Array Node} {id : NodeId} {entries : List (NodeId × NodeId)}
    {c : Comments} (depth : Nat) (h : nodes[id.index]? = some ⟨.mapping entries, c⟩) :
    unfold nodes (depth + 1) id =
      (entries.mapM (unfoldEntry nodes depth)).map (Tree.mapping c) := by
  rw [unfold, h, Option.map_eq_bind]
  rfl

theorem unfold_sequence {nodes : Array Node} {id : NodeId} {items : List NodeId} {c : Comments}
    (depth : Nat) (h : nodes[id.index]? = some ⟨.sequence items, c⟩) :
    unfold nodes (depth + 1) id = (items.mapM (unfold nodes depth)).map (Tree.sequence c) := by
  rw [unfold, h, Option.map_eq_bind]
  rfl

/-! ## Adding a tree -/

theorem segment_addTree (d : Document) (t : Tree) :
    Segment (d.addTree t).1.nodes d.nodes.size (layout d.nodes.size t) := by
  intro i hi
  simp only [addTree]
  rw [Array.getElem?_append_right (by omega), Nat.add_sub_cancel_left, List.getElem?_toArray]

theorem size_addTree (d : Document) (t : Tree) :
    (d.addTree t).1.nodes.size = d.nodes.size + t.size := by
  simp only [addTree, Array.size_append, List.size_toArray, length_layout]

end LayeredConfig.Document
