import LayeredConfig.Proofs.Document.Ownership
import LayeredConfig.Proofs.Document.Reader

/-!
# Orderly tables

In an orderly table every node refers to nodes behind it alone, keys are scalars that serve as
nothing but keys, and nothing refers to the root, which is a mapping. Every node then has a tree,
and the tree of the root can be written as a file. Edits keep a table orderly wherever they are
made.
-/

namespace LayeredConfig

/-- The nodes that a node refers to as keys. -/
def NodeKind.keys : NodeKind → List NodeId
  | .mapping entries => entries.map Prod.fst
  | _ => []

/-- The nodes that a node refers to as values or items. -/
def NodeKind.values : NodeKind → List NodeId
  | .mapping entries => entries.map Prod.snd
  | .sequence items => items
  | .scalar .. => []

/-- What may stand at a place of a table with `size` nodes, `isKey` telling the places of keys. -/
structure Node.Orderly (isKey : NodeId → Prop) (root : NodeId) (size : Nat) (id : NodeId)
    (node : Node) : Prop where
  legible : node.comments.Legible
  footless : id ≠ root → node.comments.foot = []
  scalar : isKey id → ∃ text style, node.kind = .scalar text style
  keys : ∀ key ∈ node.kind.keys, id.index < key.index ∧ key.index < size ∧ isKey key
  values : ∀ value ∈ node.kind.values,
    id.index < value.index ∧ value.index < size ∧ ¬ isKey value ∧ value ≠ root

theorem Node.Orderly.extend {isKey isKey' : NodeId → Prop} {root id : NodeId} {size size' : Nat}
    {node : Node} (h : node.Orderly isKey root size id) (hsize : size ≤ size')
    (hagree : ∀ i : NodeId, i.index < size → (isKey' i ↔ isKey i)) (hid : id.index < size) :
    node.Orderly isKey' root size' id := by
  refine ⟨h.legible, h.footless, fun hkey ↦ h.scalar ((hagree id hid).1 hkey), ?_, ?_⟩
  · intro key hmem
    obtain ⟨hlt, hkeySize, hkey⟩ := h.keys key hmem
    exact ⟨hlt, Nat.lt_of_lt_of_le hkeySize hsize, (hagree key hkeySize).2 hkey⟩
  · intro value hmem
    obtain ⟨hlt, hvalueSize, hvalue, hroot⟩ := h.values value hmem
    exact ⟨hlt, Nat.lt_of_lt_of_le hvalueSize hsize,
      fun hkey ↦ hvalue ((hagree value hvalueSize).1 hkey), hroot⟩

namespace Document

structure Orderly (isKey : NodeId → Prop) (d : Document) : Prop where
  node : ∀ id node, d.node? id = some node → node.Orderly isKey d.root d.nodes.size id
  root : ∃ entries c, d.node? d.root = some ⟨.mapping entries, c⟩

section

variable {d : Document} {isKey : NodeId → Prop}

/-! ## The trees of an orderly table -/

theorem exists_mapM {α β : Type} {f : α → Option β} {P : β → Prop} {as : List α}
    (h : ∀ a ∈ as, ∃ b, f a = some b ∧ P b) : ∃ bs, as.mapM f = some bs ∧ ∀ b ∈ bs, P b := by
  induction as with
  | nil => exact ⟨[], rfl, List.forall_mem_nil _⟩
  | cons a as ih =>
    obtain ⟨b, hb, hP⟩ := h a List.mem_cons_self
    obtain ⟨bs, hbs, hall⟩ := ih fun a' hmem ↦ h a' (List.mem_cons_of_mem a hmem)
    refine ⟨b :: bs, ?_, ?_⟩
    · rw [List.mapM_cons, hb, hbs]
      rfl
    · rw [List.forall_mem_cons]
      exact ⟨hP, hall⟩

/-- The tree of a node fits the place of the node. -/
structure Fits (isKey : NodeId → Prop) (root id : NodeId) (t : Tree) : Prop where
  key : isKey id → t.IsKey
  inner : id ≠ root → t.Writable
  file : id = root → t.IsFile

theorem Orderly.ne_root (h : d.Orderly isKey) {id : NodeId} {node : Node}
    (hnode : d.node? id = some node) (hkind : ∀ entries, node.kind ≠ .mapping entries) :
    id ≠ d.root := by
  rintro rfl
  obtain ⟨entries, c, hroot⟩ := h.root
  obtain rfl := Option.some.inj (hroot.symm.trans hnode)
  exact hkind entries rfl

theorem Orderly.not_isKey (h : d.Orderly isKey) {id : NodeId} {node : Node}
    (hnode : d.node? id = some node) (hkind : ∀ text style, node.kind ≠ .scalar text style) :
    ¬ isKey id := by
  intro hkey
  obtain ⟨text, style, hscalar⟩ := (h.node id node hnode).scalar hkey
  exact hkind text style hscalar

/-- The nodes behind a node have trees of their own. -/
def UnfoldsBehind (isKey : NodeId → Prop) (d : Document) (depth : Nat) (id : NodeId) : Prop :=
  ∀ id' : NodeId, id.index < id'.index → id'.index < d.nodes.size →
    ∃ t, unfold d.nodes depth id' = some t ∧ Fits isKey d.root id' t

theorem Orderly.exists_unfold_mapping (h : d.Orderly isKey) {depth : Nat} {id : NodeId}
    {entries : List (NodeId × NodeId)} {c : Comments}
    (hnode : d.node? id = some ⟨.mapping entries, c⟩) (hbelow : UnfoldsBehind isKey d depth id) :
    ∃ t, unfold d.nodes (depth + 1) id = some t ∧ Fits isKey d.root id t := by
  have hplace := h.node id _ hnode
  obtain ⟨trees, htrees, hall⟩ : ∃ trees, entries.mapM (unfoldEntry d.nodes depth) = some trees ∧
      ∀ entry ∈ trees, entry.1.IsKey ∧ entry.2.Writable := by
    apply exists_mapM
    rintro ⟨key, value⟩ hmem
    obtain ⟨hlt, hsize, hkey⟩ := hplace.keys key (List.mem_map_of_mem hmem)
    obtain ⟨hlt', hsize', -, hroot⟩ := hplace.values value (List.mem_map_of_mem hmem)
    obtain ⟨keyTree, hkeyTree, hkeyFits⟩ := hbelow key hlt hsize
    obtain ⟨valueTree, hvalueTree, hvalueFits⟩ := hbelow value hlt' hsize'
    refine ⟨(keyTree, valueTree), ?_, hkeyFits.key hkey, hvalueFits.inner hroot⟩
    rw [unfoldEntry, hkeyTree, hvalueTree]
    rfl
  have hkeys : ∀ entry ∈ trees, entry.1.IsKey := fun entry hmem ↦ (hall entry hmem).1
  have hvalues : ∀ entry ∈ trees, entry.2.Writable := fun entry hmem ↦ (hall entry hmem).2
  have hnot := h.not_isKey hnode fun _ _ ↦ NodeKind.noConfusion
  refine ⟨.mapping c trees, ?_, fun hkey ↦ absurd hkey hnot,
    fun hroot ↦ .mapping ⟨hplace.legible, hplace.footless hroot⟩ hkeys hvalues,
    fun _ ↦ .mapping hplace.legible hkeys hvalues⟩
  rw [unfold_mapping depth hnode, htrees]
  rfl

theorem Orderly.exists_unfold_sequence (h : d.Orderly isKey) {depth : Nat} {id : NodeId}
    {items : List NodeId} {c : Comments} (hnode : d.node? id = some ⟨.sequence items, c⟩)
    (hbelow : UnfoldsBehind isKey d depth id) :
    ∃ t, unfold d.nodes (depth + 1) id = some t ∧ Fits isKey d.root id t := by
  have hplace := h.node id _ hnode
  have hroot := h.ne_root hnode fun _ ↦ NodeKind.noConfusion
  obtain ⟨trees, htrees, hall⟩ : ∃ trees, items.mapM (unfold d.nodes depth) = some trees ∧
      ∀ item ∈ trees, item.Writable := by
    apply exists_mapM
    intro item hmem
    obtain ⟨hlt, hsize, -, hitem⟩ := hplace.values item hmem
    obtain ⟨t, ht, hfits⟩ := hbelow item hlt hsize
    exact ⟨t, ht, hfits.inner hitem⟩
  have hnot := h.not_isKey hnode fun _ _ ↦ NodeKind.noConfusion
  refine ⟨.sequence c trees, ?_, fun hkey ↦ absurd hkey hnot,
    fun _ ↦ .sequence ⟨hplace.legible, hplace.footless hroot⟩ hall, fun heq ↦ absurd heq hroot⟩
  rw [unfold_sequence depth hnode, htrees]
  rfl

theorem Orderly.exists_unfold (h : d.Orderly isKey) (depth : Nat) {id : NodeId} {node : Node}
    (hnode : d.node? id = some node) (hdepth : d.nodes.size ≤ depth + id.index) :
    ∃ t, unfold d.nodes depth id = some t ∧ Fits isKey d.root id t := by
  induction depth generalizing id node with
  | zero =>
    have hlt := lt_size_of_node? hnode
    omega
  | succ depth ih =>
    have hbelow : UnfoldsBehind isKey d depth id := by
      intro id' hlt hsize
      have hsome : d.node? id' = some d.nodes[id'.index] := Array.getElem?_eq_getElem hsize
      exact ih hsome (by omega)
    obtain ⟨kind, c⟩ := node
    cases kind with
    | scalar text style =>
      have hplace := h.node id _ hnode
      have hroot := h.ne_root hnode fun _ ↦ NodeKind.noConfusion
      exact ⟨_, unfold_scalar depth hnode,
        fun _ ↦ .scalar ⟨hplace.legible, hplace.footless hroot⟩,
        fun _ ↦ .scalar ⟨hplace.legible, hplace.footless hroot⟩, fun heq ↦ absurd heq hroot⟩
    | mapping entries => exact h.exists_unfold_mapping hnode hbelow
    | sequence items => exact h.exists_unfold_sequence hnode hbelow

/-- An orderly table has a tree that can be written as a file. -/
theorem Orderly.exists_tree (h : d.Orderly isKey) : ∃ t, d.tree? = some t ∧ t.IsFile := by
  obtain ⟨entries, c, hroot⟩ := h.root
  obtain ⟨t, ht, hfits⟩ := h.exists_unfold d.nodes.size hroot (Nat.le_add_right _ _)
  exact ⟨t, ht, hfits.file rfl⟩

/-! ## Edits -/

theorem Orderly.setKind (h : d.Orderly isKey) {id : NodeId} {node : Node} {kind : NodeKind}
    (hnode : d.node? id = some node) (hkeys : ∀ key ∈ kind.keys, key ∈ node.kind.keys)
    (hvalues : ∀ value ∈ kind.values, value ∈ node.kind.values)
    (hscalar : isKey id → ∃ text style, kind = .scalar text style)
    (hroot : id = d.root → ∃ entries, kind = .mapping entries) :
    (d.setKind id kind).Orderly isKey := by
  have hplace := h.node id node hnode
  have hsize : (d.setKind id kind).nodes.size = d.nodes.size := size_modify d id _
  refine ⟨?_, ?_⟩
  · intro id' node' hnode'
    rw [hsize]
    rw [node?_setKind] at hnode'
    split at hnode'
    · rename_i heq
      subst heq
      rw [hnode] at hnode'
      obtain rfl := Option.some.inj hnode'
      exact ⟨hplace.legible, hplace.footless, hscalar, fun key hmem ↦ hplace.keys key (hkeys key hmem),
        fun value hmem ↦ hplace.values value (hvalues value hmem)⟩
    · exact h.node id' node' hnode'
  · change ∃ entries c, (d.setKind id kind).node? d.root = _
    rw [node?_setKind]
    split
    · rename_i heq
      obtain ⟨entries, rfl⟩ := hroot heq.symm
      rw [heq, hnode]
      exact ⟨entries, node.comments, rfl⟩
    · exact h.root

/-- The places of keys once a new key stands behind all other nodes. -/
def withNewKey (isKey : NodeId → Prop) (size : Nat) (id : NodeId) : Prop :=
  id.index < size ∧ isKey id ∨ id.index = size

theorem withNewKey_iff {size : Nat} {id : NodeId} (h : id.index < size) :
    withNewKey isKey size id ↔ isKey id := by
  unfold withNewKey
  constructor
  · rintro (⟨-, hkey⟩ | heq)
    · exact hkey
    · omega
  · exact fun hkey ↦ .inl ⟨h, hkey⟩

theorem not_withNewKey {size : Nat} {id : NodeId} (h : size < id.index) :
    ¬ withNewKey isKey size id := by
  rintro (⟨hsmall, -⟩ | heq)
  · exact Nat.lt_asymm h hsmall
  · exact Nat.ne_of_gt h heq

/-- An entry was put behind those of a mapping. -/
theorem orderly_append {root id key value : NodeId} {size : Nat} {entries : List (NodeId × NodeId)}
    {c : Comments} (h : Node.Orderly isKey root size id ⟨.mapping entries, c⟩)
    (hkey : id.index < key.index ∧ key.index < size ∧ isKey key)
    (hvalue : id.index < value.index ∧ value.index < size ∧ ¬ isKey value ∧ value ≠ root) :
    Node.Orderly isKey root size id ⟨.mapping (entries ++ [(key, value)]), c⟩ := by
  refine ⟨h.legible, h.footless, fun hid ↦ ?_, ?_, ?_⟩
  · obtain ⟨text, style, hscalar⟩ := h.scalar hid
    cases hscalar
  · rw [NodeKind.keys, List.map_append, List.forall_mem_append]
    exact ⟨h.keys, List.forall_mem_singleton.2 hkey⟩
  · rw [NodeKind.values, List.map_append, List.forall_mem_append]
    exact ⟨h.values, List.forall_mem_singleton.2 hvalue⟩

theorem Orderly.addEntry (h : d.Orderly isKey) {map : NodeId} {entries : List (NodeId × NodeId)}
    {c : Comments} (hmap : d.node? map = some ⟨.mapping entries, c⟩) (key : String)
    {kind : NodeKind} (hkind : kind.keys = [] ∧ kind.values = []) :
    (d.addEntry map key kind).Orderly (withNewKey isKey d.nodes.size) := by
  have hlt := lt_size_of_node? hmap
  have hextend {id : NodeId} {node : Node} (hnode : d.node? id = some node) :
      node.Orderly (withNewKey isKey d.nodes.size) d.root (d.nodes.size + 2) id :=
    (h.node id node hnode).extend (Nat.le_add_right _ 2) (fun _ hi ↦ withNewKey_iff hi)
      (lt_size_of_node? hnode)
  obtain ⟨rootEntries, rootComments, hroot⟩ := h.root
  have hrootSize := lt_size_of_node? hroot
  refine ⟨?_, ?_⟩
  · intro id node hnode
    rw [size_addEntry]
    change node.Orderly _ d.root _ id
    rw [node?_addEntry hmap] at hnode
    split at hnode
    · rename_i hindex
      obtain rfl := Option.some.inj hnode
      refine ⟨Comments.inner_none.toLegible, fun _ ↦ rfl,
        fun hkey ↦ absurd hkey (not_withNewKey (by omega)), ?_, ?_⟩
      · rw [hkind.1]
        exact List.forall_mem_nil _
      · rw [hkind.2]
        exact List.forall_mem_nil _
    split at hnode
    · obtain rfl := Option.some.inj hnode
      exact ⟨Comments.inner_none.toLegible, fun _ ↦ rfl, fun _ ↦ ⟨_, _, rfl⟩,
        List.forall_mem_nil _, List.forall_mem_nil _⟩
    split at hnode
    · rename_i heq
      subst heq
      obtain rfl := Option.some.inj hnode
      refine orderly_append (hextend hmap) ⟨hlt, by simp, .inr rfl⟩
        ⟨Nat.lt_succ_of_lt hlt, by simp, not_withNewKey (Nat.lt_succ_self _), ?_⟩
      rintro heq
      rw [← heq] at hrootSize
      exact absurd hrootSize (by simp)
    · exact hextend hnode
  · change ∃ entries c, (d.addEntry map key kind).node? d.root = _
    rw [node?_addEntry hmap, if_neg (by omega), if_neg (by omega)]
    split
    · exact ⟨_, _, rfl⟩
    · exact h.root

theorem Orderly.setText (h : d.Orderly isKey) {d' : Document} {map : NodeId} {key text : String}
    {entry : Entry} (hset : d.setText map key text = .ok (d', entry)) :
    ∃ isKey', d'.Orderly isKey' := by
  obtain ⟨hmap, ⟨hfound, old, style, c, hnode, rfl⟩ | ⟨-, rfl⟩⟩ := setText_cases hset
  · obtain ⟨c', hparent⟩ := node?_of_mem_entries (mem_entries_of_found hfound)
    obtain ⟨-, -, -, hroot⟩ := (h.node map _ hparent).values entry.value
      (List.mem_map_of_mem (mem_entries_of_found hfound))
    exact ⟨isKey, h.setKind hnode (List.forall_mem_nil _) (List.forall_mem_nil _)
      (fun _ ↦ ⟨_, _, rfl⟩) (fun heq ↦ absurd heq hroot)⟩
  · obtain ⟨entries, c, hnode⟩ := node?_of_isMapping hmap
    exact ⟨_, h.addEntry hnode key ⟨rfl, rfl⟩⟩

theorem Orderly.removeEntry (h : d.Orderly isKey) {d' : Document} {map : NodeId} {key : String}
    {entry : Entry} (hremove : d.removeEntry map key = some (d', entry)) : d'.Orderly isKey := by
  obtain ⟨hfound, rfl⟩ := removeEntry_cases hremove
  obtain ⟨c, hnode⟩ := node?_of_mem_entries (mem_entries_of_found hfound)
  have hsub : (d.entries map).eraseIdx entry.index ⊆ d.entries map := List.eraseIdx_subset
  exact h.setKind hnode (List.map_subset _ hsub) (List.map_subset _ hsub)
    (fun hkey ↦ absurd hkey (h.not_isKey hnode fun _ _ ↦ NodeKind.noConfusion)) (fun _ ↦ ⟨_, rfl⟩)

theorem Orderly.ensureMapping (h : d.Orderly isKey) {d' : Document} {map value : NodeId}
    {key : String} (hensure : d.ensureMapping map key = .ok (d', value)) :
    ∃ isKey', d'.Orderly isKey' := by
  obtain ⟨hmap, ⟨entry, hfound, rfl, ⟨-, rfl⟩ | ⟨c, hnode, rfl⟩⟩ | ⟨-, -, rfl⟩⟩ :=
    ensureMapping_cases hensure
  · exact ⟨isKey, h⟩
  · obtain ⟨c', hparent⟩ := node?_of_mem_entries (mem_entries_of_found hfound)
    obtain ⟨-, -, hkey, -⟩ := (h.node map _ hparent).values entry.value
      (List.mem_map_of_mem (mem_entries_of_found hfound))
    exact ⟨isKey, h.setKind hnode (List.forall_mem_nil _) (List.forall_mem_nil _)
      (fun hkey' ↦ absurd hkey' hkey) (fun _ ↦ ⟨_, rfl⟩)⟩
  · obtain ⟨entries, c, hnode⟩ := node?_of_isMapping hmap
    exact ⟨_, h.addEntry hnode key ⟨rfl, rfl⟩⟩

end

/-! ## Added trees -/

mutual

/-- The places of the keys of a tree that is laid out from `base`. -/
def KeyPlace (base : Nat) : Tree → Nat → Prop
  | .scalar .., _ => False
  | .mapping _ entries, i => EntryKeyPlace (base + 1) entries i
  | .sequence _ items, i => ItemKeyPlace (base + 1) items i

def EntryKeyPlace (base : Nat) : List (Tree × Tree) → Nat → Prop
  | [], _ => False
  | (key, value) :: rest, i =>
    i = base ∨ KeyPlace (base + key.size) value i ∨
      EntryKeyPlace (base + key.size + value.size) rest i

def ItemKeyPlace (base : Nat) : List Tree → Nat → Prop
  | [], _ => False
  | item :: rest, i => KeyPlace base item i ∨ ItemKeyPlace (base + item.size) rest i

end

mutual

theorem KeyPlace.bounds : ∀ (t : Tree) {base i : Nat}, KeyPlace base t i →
    base < i ∧ i < base + t.size
  | .scalar .., _, _, h => h.elim
  | .mapping _ entries, base, i, h => by
    have hbounds := EntryKeyPlace.bounds entries h
    rw [Tree.size]
    omega
  | .sequence _ items, base, i, h => by
    have hbounds := ItemKeyPlace.bounds items h
    rw [Tree.size]
    omega

theorem EntryKeyPlace.bounds : ∀ (entries : List (Tree × Tree)) {base i : Nat},
    EntryKeyPlace base entries i → base ≤ i ∧ i < base + Tree.entriesSize entries
  | [], _, _, h => h.elim
  | (key, value) :: rest, base, i, h => by
    have hpos := key.size_pos
    rw [Tree.entriesSize]
    rcases h with rfl | h | h
    · omega
    · have hbounds := KeyPlace.bounds value h
      omega
    · have hbounds := EntryKeyPlace.bounds rest h
      omega

theorem ItemKeyPlace.bounds : ∀ (items : List Tree) {base i : Nat},
    ItemKeyPlace base items i → base ≤ i ∧ i < base + Tree.itemsSize items
  | [], _, _, h => h.elim
  | item :: rest, base, i, h => by
    rw [Tree.itemsSize]
    rcases h with h | h
    · have hbounds := KeyPlace.bounds item h
      omega
    · have hbounds := ItemKeyPlace.bounds rest h
      omega

end

theorem mem_entryIds {entries : List (Tree × Tree)} {base : Nat} {entry : NodeId × NodeId}
    (h : entry ∈ entryIds base entries) :
    (base ≤ entry.1.index ∧ entry.1.index < base + Tree.entriesSize entries ∧
      EntryKeyPlace base entries entry.1.index) ∧
    (base ≤ entry.2.index ∧ entry.2.index < base + Tree.entriesSize entries ∧
      ¬ EntryKeyPlace base entries entry.2.index) := by
  induction entries generalizing base with
  | nil => cases h
  | cons first rest ih =>
    obtain ⟨key, value⟩ := first
    have hkey := key.size_pos
    have hvalue := value.size_pos
    rw [Tree.entriesSize]
    rcases List.mem_cons.1 h with rfl | h
    · dsimp only
      refine ⟨⟨Nat.le_refl _, by omega, .inl rfl⟩, by omega, by omega, ?_⟩
      rintro (heq | hplace | hplace)
      · omega
      · have hbounds := hplace.bounds
        omega
      · have hbounds := hplace.bounds
        omega
    · obtain ⟨⟨hle, hlt, hplace⟩, hle', hlt', hnot⟩ := ih h
      refine ⟨⟨by omega, by omega, .inr (.inr hplace)⟩, by omega, by omega, ?_⟩
      rintro (heq | hplace' | hplace')
      · omega
      · have hbounds := hplace'.bounds
        omega
      · exact hnot hplace'

theorem mem_itemIds {items : List Tree} {base : Nat} {item : NodeId}
    (h : item ∈ itemIds base items) :
    base ≤ item.index ∧ item.index < base + Tree.itemsSize items ∧
      ¬ ItemKeyPlace base items item.index := by
  induction items generalizing base with
  | nil => cases h
  | cons first rest ih =>
    have hfirst := first.size_pos
    rw [Tree.itemsSize]
    rcases List.mem_cons.1 h with rfl | h
    · dsimp only
      refine ⟨Nat.le_refl _, by omega, ?_⟩
      rintro (hplace | hplace)
      · have hbounds := hplace.bounds
        omega
      · have hbounds := hplace.bounds
        omega
    · obtain ⟨hle, hlt, hnot⟩ := ih h
      refine ⟨by omega, by omega, ?_⟩
      rintro (hplace | hplace)
      · have hbounds := hplace.bounds
        omega
      · exact hnot hplace

section

variable {isKey : NodeId → Prop} {root : NodeId} {size : Nat}

theorem orderly_mapping {c : Comments} {entries : List (Tree × Tree)} {base : Nat}
    (hc : c.Legible) (hfoot : ⟨base⟩ ≠ root → c.foot = []) (hroot : root.index ≤ base)
    (hsize : base + 1 + Tree.entriesSize entries ≤ size) (hbase : ¬ isKey ⟨base⟩)
    (hagree : ∀ i : NodeId, base + 1 ≤ i.index → i.index < base + 1 + Tree.entriesSize entries →
      (isKey i ↔ EntryKeyPlace (base + 1) entries i.index)) :
    Node.Orderly isKey root size ⟨base⟩ ⟨.mapping (entryIds (base + 1) entries), c⟩ := by
  refine ⟨hc, hfoot, fun hkey ↦ absurd hkey hbase, ?_, ?_⟩
  · intro key hmem
    obtain ⟨entry, hentry, rfl⟩ := List.mem_map.1 hmem
    obtain ⟨⟨hle, hlt, hplace⟩, -⟩ := mem_entryIds hentry
    exact ⟨hle, Nat.lt_of_lt_of_le hlt hsize, (hagree _ hle hlt).2 hplace⟩
  · intro value hmem
    obtain ⟨entry, hentry, rfl⟩ := List.mem_map.1 hmem
    obtain ⟨-, hle, hlt, hplace⟩ := mem_entryIds hentry
    refine ⟨hle, Nat.lt_of_lt_of_le hlt hsize, fun hkey ↦ hplace ((hagree _ hle hlt).1 hkey), ?_⟩
    intro heq
    rw [heq] at hle
    omega

theorem orderly_sequence {c : Comments} {items : List Tree} {base : Nat} (hc : c.Inner)
    (hroot : root.index ≤ base) (hsize : base + 1 + Tree.itemsSize items ≤ size)
    (hbase : ¬ isKey ⟨base⟩)
    (hagree : ∀ i : NodeId, base + 1 ≤ i.index → i.index < base + 1 + Tree.itemsSize items →
      (isKey i ↔ ItemKeyPlace (base + 1) items i.index)) :
    Node.Orderly isKey root size ⟨base⟩ ⟨.sequence (itemIds (base + 1) items), c⟩ := by
  refine ⟨hc.toLegible, fun _ ↦ hc.footless, fun hkey ↦ absurd hkey hbase,
    (List.forall_mem_nil _), ?_⟩
  intro item hmem
  obtain ⟨hle, hlt, hplace⟩ := mem_itemIds hmem
  refine ⟨hle, Nat.lt_of_lt_of_le hlt hsize, fun hkey ↦ hplace ((hagree _ hle hlt).1 hkey), ?_⟩
  intro heq
  rw [heq] at hle
  omega

mutual

theorem orderly_layout : ∀ (t : Tree) {base : Nat}, t.Writable → root.index < base →
    base + t.size ≤ size →
    (∀ i : NodeId, base ≤ i.index → i.index < base + t.size → (isKey i ↔ KeyPlace base t i.index)) →
    ∀ n node, (layout base t)[n]? = some node → Node.Orderly isKey root size ⟨base + n⟩ node
  | .scalar c text style, base, h, hroot, hsize, hagree, n, node, hnode => by
    cases h with
    | scalar hc =>
      cases n with
      | zero =>
        obtain rfl := Option.some.inj hnode
        exact ⟨hc.toLegible, fun _ ↦ hc.footless, fun _ ↦ ⟨_, _, rfl⟩,
          (List.forall_mem_nil _), List.forall_mem_nil _⟩
      | succ n => cases hnode
  | .mapping c entries, base, h, hroot, hsize, hagree, n, node, hnode => by
    cases h with
    | mapping hc hkeys hvalues =>
      rw [Tree.size, ← Nat.add_assoc] at hsize hagree
      have hagree' : ∀ i : NodeId, base + 1 ≤ i.index →
          i.index < base + 1 + Tree.entriesSize entries →
          (isKey i ↔ EntryKeyPlace (base + 1) entries i.index) :=
        fun i hle hlt ↦ hagree i (by omega) hlt
      cases n with
      | zero =>
        obtain rfl := Option.some.inj hnode
        refine orderly_mapping hc.toLegible (fun _ ↦ hc.footless) (Nat.le_of_lt hroot) hsize ?_
          hagree'
        intro hkey
        have hbounds := KeyPlace.bounds (.mapping c entries)
          ((hagree ⟨base⟩ (Nat.le_refl _) (by dsimp only; omega)).1 hkey)
        exact absurd hbounds.1 (Nat.lt_irrefl base)
      | succ n =>
        have hrest := orderly_entryLayout entries hkeys hvalues (Nat.lt_succ_of_lt hroot) hsize
          hagree' n node hnode
        have hindex : base + (n + 1) = base + 1 + n := by omega
        rw [hindex]
        exact hrest
  | .sequence c items, base, h, hroot, hsize, hagree, n, node, hnode => by
    cases h with
    | sequence hc hitems =>
      rw [Tree.size, ← Nat.add_assoc] at hsize hagree
      have hagree' : ∀ i : NodeId, base + 1 ≤ i.index →
          i.index < base + 1 + Tree.itemsSize items →
          (isKey i ↔ ItemKeyPlace (base + 1) items i.index) :=
        fun i hle hlt ↦ hagree i (by omega) hlt
      cases n with
      | zero =>
        obtain rfl := Option.some.inj hnode
        refine orderly_sequence hc (Nat.le_of_lt hroot) hsize ?_ hagree'
        intro hkey
        have hbounds := KeyPlace.bounds (.sequence c items)
          ((hagree ⟨base⟩ (Nat.le_refl _) (by dsimp only; omega)).1 hkey)
        exact absurd hbounds.1 (Nat.lt_irrefl base)
      | succ n =>
        have hrest := orderly_itemLayout items hitems (Nat.lt_succ_of_lt hroot) hsize
          hagree' n node hnode
        have hindex : base + (n + 1) = base + 1 + n := by omega
        rw [hindex]
        exact hrest

theorem orderly_entryLayout : ∀ (entries : List (Tree × Tree)) {base : Nat},
    (∀ entry ∈ entries, entry.1.IsKey) → (∀ entry ∈ entries, entry.2.Writable) →
    root.index < base → base + Tree.entriesSize entries ≤ size →
    (∀ i : NodeId, base ≤ i.index → i.index < base + Tree.entriesSize entries →
      (isKey i ↔ EntryKeyPlace base entries i.index)) →
    ∀ n node, (entryLayout base entries)[n]? = some node → Node.Orderly isKey root size ⟨base + n⟩ node
  | [], _, _, _, _, _, _, n, node, hnode => by simp [entryLayout] at hnode
  | (key, value) :: rest, base, hkeys, hvalues, hroot, hsize, hagree, n, node, hnode => by
    have hkey : key.IsKey := hkeys _ List.mem_cons_self
    have hpos := key.size_pos
    rw [Tree.entriesSize] at hsize hagree
    have hagreeValue : ∀ i : NodeId, base + key.size ≤ i.index →
        i.index < base + key.size + value.size →
        (isKey i ↔ KeyPlace (base + key.size) value i.index) := by
      intro i hle hlt
      rw [hagree i (by omega) (by omega)]
      refine ⟨?_, fun hplace ↦ .inr (.inl hplace)⟩
      rintro (heq | hplace | hplace)
      · omega
      · exact hplace
      · have hbounds := hplace.bounds
        omega
    have hagreeRest : ∀ i : NodeId, base + key.size + value.size ≤ i.index →
        i.index < base + key.size + value.size + Tree.entriesSize rest →
        (isKey i ↔ EntryKeyPlace (base + key.size + value.size) rest i.index) := by
      intro i hle hlt
      rw [hagree i (by omega) (by omega)]
      refine ⟨?_, fun hplace ↦ .inr (.inr hplace)⟩
      rintro (heq | hplace | hplace)
      · have hsizeValue := value.size_pos
        omega
      · have hbounds := hplace.bounds
        omega
      · exact hplace
    rw [entryLayout, List.append_assoc, List.getElem?_append, length_layout] at hnode
    split at hnode
    · cases hkey with
      | scalar hc =>
        cases n with
        | zero =>
          obtain rfl := Option.some.inj hnode
          exact ⟨hc.toLegible, fun _ ↦ hc.footless, fun _ ↦ ⟨_, _, rfl⟩,
            (List.forall_mem_nil _), List.forall_mem_nil _⟩
        | succ n => cases hnode
    rename_i hn
    rw [List.getElem?_append, length_layout] at hnode
    split at hnode
    · have hvalue := orderly_layout value (hvalues _ List.mem_cons_self) (by omega) (by omega)
        hagreeValue _ node hnode
      rwa [Nat.add_assoc, Nat.add_sub_cancel' (by omega)] at hvalue
    · rename_i hn'
      have hrest := orderly_entryLayout rest
        (fun entry hmem ↦ hkeys entry (List.mem_cons_of_mem _ hmem))
        (fun entry hmem ↦ hvalues entry (List.mem_cons_of_mem _ hmem)) (by omega) (by omega)
        hagreeRest _ node hnode
      rwa [Nat.add_assoc, Nat.add_sub_cancel' (by omega), Nat.add_assoc,
        Nat.add_sub_cancel' (by omega)] at hrest

theorem orderly_itemLayout : ∀ (items : List Tree) {base : Nat},
    (∀ item ∈ items, item.Writable) → root.index < base →
    base + Tree.itemsSize items ≤ size →
    (∀ i : NodeId, base ≤ i.index → i.index < base + Tree.itemsSize items →
      (isKey i ↔ ItemKeyPlace base items i.index)) →
    ∀ n node, (itemLayout base items)[n]? = some node → Node.Orderly isKey root size ⟨base + n⟩ node
  | [], _, _, _, _, _, n, node, hnode => by simp [itemLayout] at hnode
  | item :: rest, base, hitems, hroot, hsize, hagree, n, node, hnode => by
    have hpos := item.size_pos
    rw [Tree.itemsSize] at hsize hagree
    have hagreeItem : ∀ i : NodeId, base ≤ i.index → i.index < base + item.size →
        (isKey i ↔ KeyPlace base item i.index) := by
      intro i hle hlt
      rw [hagree i hle (by omega)]
      refine ⟨?_, fun hplace ↦ .inl hplace⟩
      rintro (hplace | hplace)
      · exact hplace
      · have hbounds := hplace.bounds
        omega
    have hagreeRest : ∀ i : NodeId, base + item.size ≤ i.index →
        i.index < base + item.size + Tree.itemsSize rest →
        (isKey i ↔ ItemKeyPlace (base + item.size) rest i.index) := by
      intro i hle hlt
      rw [hagree i (by omega) (by omega)]
      refine ⟨?_, fun hplace ↦ .inr hplace⟩
      rintro (hplace | hplace)
      · have hbounds := hplace.bounds
        omega
      · exact hplace
    rw [itemLayout, List.getElem?_append, length_layout] at hnode
    split at hnode
    · exact orderly_layout item (hitems _ List.mem_cons_self) hroot (by omega) hagreeItem n node hnode
    · rename_i hn
      have hrest := orderly_itemLayout rest
        (fun item hmem ↦ hitems item (List.mem_cons_of_mem _ hmem)) (by omega) (by omega)
        hagreeRest _ node hnode
      rwa [Nat.add_assoc, Nat.add_sub_cancel' (by omega)] at hrest

end

end

/-! ## Documents to begin with -/

theorem orderly_root {c : Comments} (hc : c.Legible) :
    Orderly (fun _ ↦ False) ⟨#[⟨.mapping [], c⟩], ⟨0⟩⟩ := by
  refine ⟨?_, [], c, rfl⟩
  intro id node hnode
  obtain ⟨hlt, hget⟩ := Array.getElem?_eq_some_iff.1 hnode
  obtain ⟨index⟩ := id
  obtain rfl : index = 0 := Nat.lt_one_iff.1 hlt
  obtain rfl : _ = node := hget
  exact ⟨hc, fun hroot ↦ absurd rfl hroot, fun hkey ↦ hkey.elim, List.forall_mem_nil _,
    List.forall_mem_nil _⟩

/-- The table of a file behind one spare mapping. -/
def ofFile (t : Tree) : Document :=
  { (empty.addTree t).1 with root := (empty.addTree t).2 }

theorem tree?_ofFile (t : Tree) : (ofFile t).tree? = some t :=
  treeAt?_addTree empty t

theorem orderly_ofFile {t : Tree} (h : t.IsFile) :
    (ofFile t).Orderly fun id ↦ KeyPlace 1 t id.index := by
  have hsize : (ofFile t).nodes.size = 1 + t.size := size_addTree empty t
  cases h with
  | mapping hc hkeys hvalues =>
    rename_i c entries
    have hnot (i : Nat) (hi : i ≤ 1) : ¬ KeyPlace 1 (.mapping c entries) i := by
      intro hkey
      have hbounds := KeyPlace.bounds _ hkey
      omega
    have hnodes (id : NodeId) : (ofFile (.mapping c entries)).node? id =
        (⟨.mapping [], {}⟩ :: layout 1 (.mapping c entries))[id.index]? := by
      simp [ofFile, node?, addTree, empty, List.getElem?_toArray]
    rw [Tree.size] at hsize
    refine ⟨?_, ?_⟩
    · rintro ⟨index⟩ node hnode
      rw [hnodes] at hnode
      rw [hsize]
      rcases index with _ | _ | n
      · obtain rfl := Option.some.inj hnode
        exact ⟨Comments.inner_none.toLegible, fun _ ↦ rfl, fun hkey ↦ absurd hkey (hnot 0 (by omega)),
          (List.forall_mem_nil _), List.forall_mem_nil _⟩
      · obtain rfl := Option.some.inj hnode
        exact orderly_mapping hc (fun hroot ↦ absurd rfl hroot) (Nat.le_refl 1) (by omega)
          (hnot 1 (Nat.le_refl 1)) (fun _ _ _ ↦ Iff.rfl)
      · have hindex : n + 1 + 1 = 2 + n := by omega
        rw [hindex]
        exact orderly_entryLayout entries hkeys hvalues Nat.one_lt_two (by omega)
          (fun _ _ _ ↦ Iff.rfl) n node hnode
    · exact ⟨_, c, hnodes ⟨1⟩⟩

theorem ofFile_of_parse {text : String} {d : Document} (h : parse text = .ok d) :
    (∃ foot, (∀ line ∈ foot, IsCommentLine line.toList) ∧
      d = ⟨#[⟨.mapping [], ⟨[], none, foot⟩⟩], ⟨0⟩⟩) ∨
    ∃ t, t.IsFile ∧ d = ofFile t := by
  obtain ⟨content, hread, h⟩ := bind_eq_ok_iff.1 h
  obtain ⟨hroot, hfoot⟩ := Reader.isFile_of_read hread
  split at h
  · obtain rfl := Except.ok.inj h
    exact .inl ⟨content.foot, hfoot, rfl⟩
  · rename_i tree htree
    obtain rfl := Except.ok.inj h
    refine .inr ⟨tree.withFoot content.foot, ?_, rfl⟩
    cases hroot tree htree with
    | mapping hc hkeys hvalues => exact .mapping ⟨hc.head, hc.line, hfoot⟩ hkeys hvalues

/-- Whatever file was read, its table is orderly. -/
theorem orderly_of_parse {text : String} {d : Document} (h : parse text = .ok d) :
    ∃ isKey, d.Orderly isKey := by
  rcases ofFile_of_parse h with ⟨foot, hfoot, rfl⟩ | ⟨t, ht, rfl⟩
  · exact ⟨_, orderly_root ⟨List.forall_mem_nil _, (fun _ hmem ↦ by cases hmem), hfoot⟩⟩
  · exact ⟨_, orderly_ofFile ht⟩

end Document

end LayeredConfig
