import Mathlib.Logic.Relation
import LayeredConfig.Proofs.Document.References
import LayeredConfig.Proofs.Document.RoundTrip
import LayeredConfig.Proofs.Document.Simulation

/-!
# Sound tables share nothing

In a sound table a node has at most one parent, so that what hangs below one child of a node hangs
below no other. The places of every tree are different, and they stay so whatever is edited.
-/

namespace LayeredConfig.Document

open Relation

section

variable {d : Document} {id parent a b i : NodeId}

/-! ## Parents -/

def IsParent (d : Document) (child parent : NodeId) : Prop :=
  child ∈ (d.kindAt parent).children

namespace Sound

theorem rightUnique_isParent (h : d.Sound) : Relator.RightUnique d.IsParent :=
  fun child parent parent' hparent hparent' ↦ h.once parent parent' child hparent hparent'

theorem index_le_of_above (h : d.Sound) (habove : ReflTransGen d.IsParent i id) :
    id.index ≤ i.index := by
  induction habove with
  | refl => exact Nat.le_refl _
  | tail _ hparent ih => exact Nat.le_trans (Nat.le_of_lt (h.behind _ _ hparent).1) ih

/-- No node hangs below another child of its parent. -/
theorem eq_of_above (h : d.Sound) (ha : d.IsParent a parent) (hb : d.IsParent b parent)
    (habove : ReflTransGen d.IsParent a b) : a = b := by
  rcases habove.cases_head with heq | ⟨parent', ha', hparent⟩
  · exact heq
  · obtain rfl := h.rightUnique_isParent ha ha'
    have hle := h.index_le_of_above hparent
    have hlt := (h.behind _ _ hb).1
    omega

theorem eq_of_above_both (h : d.Sound) (ha : d.IsParent a parent) (hb : d.IsParent b parent)
    (habove : ReflTransGen d.IsParent i a) (habove' : ReflTransGen d.IsParent i b) : a = b := by
  rcases ReflTransGen.total_of_right_unique h.rightUnique_isParent habove habove' with hab | hba
  · exact h.eq_of_above ha hb hab
  · exact (h.eq_of_above hb ha hba).symm

/-! ## Places -/

/-- A tree hangs from the node, and all its places are different ones below the node. -/
def HangsApart (d : Document) (id : NodeId) : Prop :=
  ∃ t places, Hangs d t id places ∧ places.Nodup ∧ ∀ i ∈ places, ReflTransGen d.IsParent i id

theorem children_cons (key value : NodeId) (rest : List (NodeId × NodeId)) :
    (NodeKind.mapping ((key, value) :: rest)).children.Perm
      (key :: value :: (NodeKind.mapping rest).children) :=
  List.perm_middle.cons key

theorem exists_hangEntries (h : d.Sound) {entries : List (NodeId × NodeId)}
    (hparent : ∀ child ∈ (NodeKind.mapping entries).children, d.IsParent child parent)
    (hnodup : (NodeKind.mapping entries).children.Nodup)
    (hbelow : ∀ child ∈ (NodeKind.mapping entries).children, HangsApart d child) :
    ∃ trees places, HangEntries d trees entries places ∧ places.Nodup ∧
      ∀ i ∈ places, ∃ child ∈ (NodeKind.mapping entries).children,
        ReflTransGen d.IsParent i child := by
  induction entries with
  | nil => exact ⟨[], [], .nil, List.nodup_nil, List.forall_mem_nil _⟩
  | cons entry rest ih =>
    obtain ⟨k, v⟩ := entry
    have hperm := children_cons k v rest
    simp only [hperm.mem_iff, List.forall_mem_cons] at hparent hbelow ⊢
    rw [hperm.nodup_iff, List.nodup_cons, List.nodup_cons, List.mem_cons, not_or] at hnodup
    obtain ⟨⟨hkv, hkRest⟩, hvRest, hnodupRest⟩ := hnodup
    obtain ⟨hk, hv, hrest⟩ := hparent
    obtain ⟨⟨key, keyPlaces, hkey, hkeyNodup, hkeyAbove⟩,
      ⟨value, valuePlaces, hvalue, hvalueNodup, hvalueAbove⟩, hbelowRest⟩ := hbelow
    obtain ⟨trees, places, hentries, hplaces, habove⟩ := ih hrest hnodupRest hbelowRest
    have happart {child : NodeId} (hchild : d.IsParent child parent)
        (hnot : child ∉ (NodeKind.mapping rest).children) {childPlaces : List NodeId}
        (hall : ∀ i ∈ childPlaces, ReflTransGen d.IsParent i child) :
        ∀ i ∈ childPlaces, ∀ j ∈ places, i ≠ j := by
      rintro i hi j hj rfl
      obtain ⟨other, hother, hotherAbove⟩ := habove i hj
      exact hnot (h.eq_of_above_both hchild (hrest other hother) (hall i hi) hotherAbove ▸ hother)
    refine ⟨_, _, .cons hkey hvalue hentries, ?_, ?_⟩
    · simp only [List.nodup_append, List.mem_append]
      refine ⟨hkeyNodup, ⟨hvalueNodup, hplaces, happart hv hvRest hvalueAbove⟩, ?_⟩
      rintro i hi j (hj | hj) rfl
      · exact hkv (h.eq_of_above_both hk hv (hkeyAbove i hi) (hvalueAbove i hj))
      · exact happart hk hkRest hkeyAbove i hi i hj rfl
    · simp only [List.mem_append]
      rintro i (hi | hi | hi)
      · exact ⟨k, List.mem_cons_self, hkeyAbove i hi⟩
      · exact ⟨v, List.mem_cons_of_mem _ List.mem_cons_self, hvalueAbove i hi⟩
      · obtain ⟨child, hchild, hchildAbove⟩ := habove i hi
        exact ⟨child, List.mem_cons_of_mem _ (List.mem_cons_of_mem _ hchild), hchildAbove⟩

theorem exists_hangItems (h : d.Sound) {items : List NodeId}
    (hparent : ∀ child ∈ items, d.IsParent child parent) (hnodup : items.Nodup)
    (hbelow : ∀ child ∈ items, HangsApart d child) :
    ∃ trees places, HangItems d trees items places ∧ places.Nodup ∧
      ∀ i ∈ places, ∃ child ∈ items, ReflTransGen d.IsParent i child := by
  induction items with
  | nil => exact ⟨[], [], .nil, List.nodup_nil, List.forall_mem_nil _⟩
  | cons item rest ih =>
    simp only [List.forall_mem_cons] at hparent hbelow
    obtain ⟨hnot, hnodupRest⟩ := List.nodup_cons.1 hnodup
    obtain ⟨hitem, hrest⟩ := hparent
    obtain ⟨⟨t, itemPlaces, hangs, hitemNodup, hitemAbove⟩, hbelowRest⟩ := hbelow
    obtain ⟨trees, places, hitems, hplaces, habove⟩ := ih hrest hnodupRest hbelowRest
    refine ⟨_, _, .cons hangs hitems, List.nodup_append.2 ⟨hitemNodup, hplaces, ?_⟩, ?_⟩
    · rintro i hi j hj rfl
      obtain ⟨other, hother, hotherAbove⟩ := habove i hj
      exact hnot (h.eq_of_above_both hitem (hrest other hother) (hitemAbove i hi) hotherAbove ▸
        hother)
    · simp only [List.mem_append]
      rintro i (hi | hi)
      · exact ⟨item, List.mem_cons_self, hitemAbove i hi⟩
      · obtain ⟨child, hchild, hchildAbove⟩ := habove i hi
        exact ⟨child, List.mem_cons_of_mem _ hchild, hchildAbove⟩

/-- What hangs below the children of a node hangs below the node, and behind it. -/
theorem nodup_cons_below (h : d.Sound) {below : List NodeId} (hnodup : below.Nodup)
    (habove : ∀ i ∈ below, ∃ child ∈ (d.kindAt id).children, ReflTransGen d.IsParent i child) :
    (id :: below).Nodup ∧ ∀ i ∈ id :: below, ReflTransGen d.IsParent i id := by
  refine ⟨List.nodup_cons.2 ⟨fun hmem ↦ ?_, hnodup⟩, List.forall_mem_cons.2 ⟨.refl, ?_⟩⟩
  · obtain ⟨child, hchild, hle⟩ := habove id hmem
    have hle := h.index_le_of_above hle
    have hlt := (h.behind id child hchild).1
    omega
  · intro i hi
    obtain ⟨child, hchild, hi⟩ := habove i hi
    exact hi.tail hchild

theorem hangsApart (h : d.Sound) (depth : Nat) (hid : id.index < d.nodes.size)
    (hdepth : d.nodes.size ≤ depth + id.index) : HangsApart d id := by
  induction depth generalizing id with
  | zero => omega
  | succ depth ih =>
    obtain ⟨⟨kind, c⟩, hnode⟩ := exists_node hid
    have hkind : d.kindAt id = kind := kindAt_eq hnode
    have hparent : ∀ child ∈ kind.children, d.IsParent child id := by
      intro child hchild
      rwa [IsParent, hkind]
    have hbelow : ∀ child ∈ kind.children, HangsApart d child := by
      intro child hchild
      obtain ⟨hlt, hsize⟩ := h.behind id child (hparent child hchild)
      exact ih hsize (by omega)
    have hnodup : kind.children.Nodup := hkind ▸ h.apart id
    cases kind with
    | scalar text style =>
      exact ⟨_, _, .scalar hnode, List.pairwise_singleton _ id, List.forall_mem_singleton.2 .refl⟩
    | mapping entries =>
      obtain ⟨trees, below, hentries, hplaces, habove⟩ := h.exists_hangEntries hparent hnodup hbelow
      exact ⟨_, _, .mapping hnode hentries, h.nodup_cons_below hplaces (hkind ▸ habove)⟩
    | sequence items =>
      obtain ⟨trees, below, hitems, hplaces, habove⟩ := h.exists_hangItems hparent hnodup hbelow
      exact ⟨_, _, .sequence hnode hitems, h.nodup_cons_below hplaces (hkind ▸ habove)⟩

/-- The tree of a sound table shares nothing. -/
theorem holds (h : d.Sound) : ∃ t, d.Holds t := by
  obtain ⟨t, places, hangs, hnodup, -⟩ := h.hangsApart d.nodes.size h.root (Nat.le_add_right _ _)
  exact ⟨t, places, hangs, hnodup⟩

/-! ## Edits -/

theorem editAll (h : d.Sound) (edits : List Edit) : (d.editAll edits).Sound :=
  editAll_invariant setText removeEntry ensureMapping h edits

end Sound

end

end LayeredConfig.Document
