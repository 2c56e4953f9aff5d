import LayeredConfig.Proofs.Document.Orderly

/-!
# References between nodes

Nodes refer to each other by their places in the table, and nodes that were removed stay in it. In
a sound table every reference leads to a node further behind, keys are scalars, and no node is
referred to twice, removed ones included. Then at most one path leads from the root to a node, and
every node has a tree. Whatever edit is made anywhere, a sound table stays sound.
-/

namespace LayeredConfig

/-! ## References and paths -/

/-- The nodes that a node refers to, keys first. -/
def NodeKind.children (kind : NodeKind) : List NodeId :=
  kind.keys ++ kind.values

/-- One step down: to the key or to the value of an entry. An item is a value as well. -/
inductive Step where
  | key (index : Nat)
  | value (index : Nat)
deriving DecidableEq, Repr

def NodeKind.at? (kind : NodeKind) : Step → Option NodeId
  | .key index => kind.keys[index]?
  | .value index => kind.values[index]?

theorem NodeKind.mem_of_at? {kind : NodeKind} {step : Step} {id : NodeId}
    (h : kind.at? step = some id) : id ∈ kind.children := by
  cases step with
  | key index => exact List.mem_append_left _ (List.mem_of_getElem? h)
  | value index => exact List.mem_append_right _ (List.mem_of_getElem? h)

theorem NodeKind.at?_inj {kind : NodeKind} {step step' : Step} {id : NodeId}
    (hnodup : kind.children.Nodup) (h : kind.at? step = some id) (h' : kind.at? step' = some id) :
    step = step' := by
  obtain ⟨hkeys, hvalues, hapart⟩ := List.nodup_append.1 hnodup
  cases step with
  | key index =>
    cases step' with
    | key index' =>
      have hlt := (List.getElem?_eq_some_iff.1 h).1
      rw [(List.getElem?_inj hlt hkeys).1 (h.trans h'.symm)]
    | value index' =>
      exact absurd rfl (hapart id (List.mem_of_getElem? h) id (List.mem_of_getElem? h'))
  | value index =>
    cases step' with
    | key index' =>
      exact absurd rfl (hapart id (List.mem_of_getElem? h') id (List.mem_of_getElem? h))
    | value index' =>
      have hlt := (List.getElem?_eq_some_iff.1 h).1
      rw [(List.getElem?_inj hlt hvalues).1 (h.trans h'.symm)]

namespace Document

/-- What stands at a place. A place outside the table refers to nothing. -/
def kindAt (d : Document) (id : NodeId) : NodeKind :=
  match d.node? id with
  | some node => node.kind
  | none => .sequence []

/-- A path leads from the root to a node. -/
inductive Leads (d : Document) : List Step → NodeId → Prop
  | root : Leads d [] d.root
  | step {path : List Step} {id child : NodeId} {step : Step} (h : Leads d path id)
      (hat : (d.kindAt id).at? step = some child) : Leads d (path ++ [step]) child

/-- References lead behind, keys are scalars, and no node is referred to twice. -/
structure Sound (d : Document) : Prop where
  root : d.root.index < d.nodes.size
  behind : ∀ id, ∀ child ∈ (d.kindAt id).children,
    id.index < child.index ∧ child.index < d.nodes.size
  scalar : ∀ id, ∀ key ∈ (d.kindAt id).keys, ∃ text style, d.kindAt key = .scalar text style
  apart : ∀ id, (d.kindAt id).children.Nodup
  once : ∀ id id', ∀ child ∈ (d.kindAt id).children, child ∈ (d.kindAt id').children → id = id'
  top : ∀ id, d.root ∉ (d.kindAt id).children

section

variable {d d' : Document} {id child map value : NodeId} {node : Node} {kind : NodeKind}
  {path : List Step}

theorem kindAt_eq (h : d.node? id = some node) : d.kindAt id = node.kind := by
  rw [kindAt, h]

theorem kindAt_of_size_le (h : d.nodes.size ≤ id.index) : d.kindAt id = .sequence [] := by
  rw [kindAt, node?, Array.getElem?_eq_none h]

theorem exists_node (h : id.index < d.nodes.size) : ∃ node, d.node? id = some node :=
  ⟨_, Array.getElem?_eq_getElem h⟩

theorem mem_children_of_entry {entry : NodeId × NodeId} (h : entry ∈ d.entries map) :
    entry.1 ∈ (d.kindAt map).keys ∧ entry.2 ∈ (d.kindAt map).values := by
  obtain ⟨c, hnode⟩ := node?_of_mem_entries h
  rw [kindAt_eq hnode]
  exact ⟨List.mem_map_of_mem h, List.mem_map_of_mem h⟩

/-- A node has a tree when the nodes it refers to have one. -/
theorem exists_unfold_of_children {depth : Nat} {node : Node} (hnode : d.node? id = some node)
    (hbelow : ∀ child ∈ node.kind.children, ∃ t, unfold d.nodes depth child = some t) :
    ∃ t, unfold d.nodes (depth + 1) id = some t := by
  obtain ⟨kind, c⟩ := node
  cases kind with
  | scalar text style => exact ⟨_, unfold_scalar depth hnode⟩
  | mapping entries =>
    obtain ⟨trees, htrees, -⟩ : ∃ trees, entries.mapM (unfoldEntry d.nodes depth) = some trees ∧
        ∀ entry ∈ trees, True := by
      apply exists_mapM
      intro entry hmem
      obtain ⟨key, hkey⟩ := hbelow entry.1 (List.mem_append_left _ (List.mem_map_of_mem hmem))
      obtain ⟨value, hvalue⟩ :=
        hbelow entry.2 (List.mem_append_right _ (List.mem_map_of_mem hmem))
      refine ⟨(key, value), ?_, trivial⟩
      rw [unfoldEntry, hkey, hvalue]
      rfl
    refine ⟨.mapping c trees, ?_⟩
    rw [unfold_mapping depth hnode, htrees]
    rfl
  | sequence items =>
    obtain ⟨trees, htrees, -⟩ : ∃ trees, items.mapM (unfold d.nodes depth) = some trees ∧
        ∀ item ∈ trees, True := by
      apply exists_mapM
      intro item hmem
      obtain ⟨t, ht⟩ := hbelow item hmem
      exact ⟨t, ht, trivial⟩
    refine ⟨.sequence c trees, ?_⟩
    rw [unfold_sequence depth hnode, htrees]
    rfl

namespace Sound

/-! ## Paths -/

theorem lt_size_of_leads (h : d.Sound) (hpath : Leads d path id) : id.index < d.nodes.size := by
  cases hpath with
  | root => exact h.root
  | step _ hat => exact (h.behind _ _ (NodeKind.mem_of_at? hat)).2

theorem eq_of_leads (h : d.Sound) {path' : List Step} (hpath : Leads d path id)
    (hpath' : Leads d path' id) : path = path' := by
  induction hpath generalizing path' with
  | root =>
    generalize hroot : d.root = root at hpath'
    cases hpath' with
    | root => rfl
    | step _ hat => exact absurd (NodeKind.mem_of_at? (hroot ▸ hat)) (h.top _)
  | step _ hat ih =>
    rename_i path id child step hup
    cases hpath' with
    | root => exact absurd (NodeKind.mem_of_at? hat) (h.top _)
    | step hup' hat' =>
      obtain rfl := h.once _ _ child (NodeKind.mem_of_at? hat) (NodeKind.mem_of_at? hat')
      rw [ih hup', NodeKind.at?_inj (h.apart _) hat hat']

/-! ## Trees -/

/-- Every node has a tree. -/
theorem exists_unfold (h : d.Sound) (depth : Nat) (hnode : d.node? id = some node)
    (hdepth : d.nodes.size ≤ depth + id.index) : ∃ t, unfold d.nodes depth id = some t := by
  induction depth generalizing id node with
  | zero =>
    have hlt := lt_size_of_node? hnode
    omega
  | succ depth ih =>
    refine exists_unfold_of_children hnode fun child hmem ↦ ?_
    obtain ⟨hlt, hsize⟩ := h.behind id child (kindAt_eq hnode ▸ hmem)
    obtain ⟨node', hnode'⟩ := exists_node hsize
    exact ih hnode' (by omega)

theorem exists_treeAt? (h : d.Sound) (hid : id.index < d.nodes.size) :
    ∃ t, d.treeAt? id = some t := by
  obtain ⟨node, hnode⟩ := exists_node hid
  exact h.exists_unfold d.nodes.size hnode (Nat.le_add_right _ _)

/-! ## A change of one node -/

theorem ne_of_key (h : d.Sound) {key : NodeId} (hkey : key ∈ (d.kindAt id).keys)
    (hvalue : value ∈ (d.kindAt map).values) : key ≠ value := by
  rintro rfl
  obtain rfl := h.once id map key (List.mem_append_left _ hkey) (List.mem_append_right _ hvalue)
  exact (List.nodup_append.1 (h.apart id)).2.2 key hkey key hvalue rfl

end Sound

/-- A node that may be referred to: it is no root, and nothing refers to it. -/
structure Loose (d : Document) (id : NodeId) : Prop where
  size : id.index < d.nodes.size
  root : id ≠ d.root
  free : ∀ parent, id ∉ (d.kindAt parent).children

/-- One node refers to other nodes than before, to old ones and to loose ones behind it. -/
theorem Sound.change (h : d.Sound) (id : NodeId) (hroot : d'.root = d.root)
    (hsize : d'.nodes.size = d.nodes.size)
    (hkind : ∀ i, d'.kindAt i = if i = id then kind else d.kindAt i)
    (hnodup : kind.children.Nodup)
    (hchild : ∀ child ∈ kind.children,
      child ∈ (d.kindAt id).children ∨ (d.Loose child ∧ id.index < child.index))
    (hkey : ∀ key ∈ kind.keys, ∃ text style, d.kindAt key = .scalar text style)
    (hscalar : (∃ text style, kind = .scalar text style) ∨ ∀ i, id ∉ (d.kindAt i).keys) :
    d'.Sound := by
  have hself : d'.kindAt id = kind := by rw [hkind, if_pos rfl]
  have hother {i : NodeId} (hi : i ≠ id) : d'.kindAt i = d.kindAt i := by rw [hkind, if_neg hi]
  have hbehind : ∀ child ∈ kind.children, id.index < child.index ∧ child.index < d.nodes.size := by
    intro child hmem
    rcases hchild child hmem with hold | ⟨hloose, hlt⟩
    · exact h.behind id child hold
    · exact ⟨hlt, hloose.size⟩
  have honce {i : NodeId} (hi : i ≠ id) :
      ∀ child ∈ kind.children, child ∉ (d.kindAt i).children := by
    intro child hmem hother
    rcases hchild child hmem with hold | ⟨hloose, -⟩
    · exact hi (h.once i id child hother hold)
    · exact hloose.free i hother
  constructor
  case root =>
    rw [hroot, hsize]
    exact h.root
  case behind =>
    intro i child hmem
    rw [hsize]
    by_cases hi : i = id
    · subst hi
      exact hbehind child (hself ▸ hmem)
    · exact h.behind i child (hother hi ▸ hmem)
  case scalar =>
    intro i key hmem
    by_cases hi : i = id
    · subst hi
      rw [hself] at hmem
      have hne : key ≠ i := by
        rintro rfl
        exact Nat.lt_irrefl _ (hbehind key (List.mem_append_left _ hmem)).1
      rw [hother hne]
      exact hkey key hmem
    · rw [hother hi] at hmem
      by_cases hne : key = id
      · subst hne
        rw [hself]
        exact hscalar.resolve_right fun hnot ↦ hnot i hmem
      · rw [hother hne]
        exact h.scalar i key hmem
  case apart =>
    intro i
    by_cases hi : i = id
    · rw [hi, hself]
      exact hnodup
    · rw [hother hi]
      exact h.apart i
  case once =>
    intro i j child hmem hmem'
    by_cases hi : i = id
    · subst hi
      by_cases hj : j = i
      · exact hj.symm
      · rw [hself] at hmem
        rw [hother hj] at hmem'
        exact absurd hmem' (honce hj child hmem)
    · rw [hother hi] at hmem
      by_cases hj : j = id
      · subst hj
        rw [hself] at hmem'
        exact absurd hmem (honce hi child hmem')
      · rw [hother hj] at hmem'
        exact h.once i j child hmem hmem'
  case top =>
    intro i hmem
    rw [hroot] at hmem
    by_cases hi : i = id
    · subst hi
      rcases hchild d.root (hself ▸ hmem) with hold | ⟨hloose, -⟩
      · exact h.top i hold
      · exact hloose.root rfl
    · exact h.top i (hother hi ▸ hmem)

/-! ## New nodes -/

/-- Nodes were added behind all others, and nothing refers from the old ones to the new ones or the
other way round. -/
structure Grows (d d' : Document) : Prop where
  root : d'.root = d.root
  size : d.nodes.size ≤ d'.nodes.size
  old : ∀ i : NodeId, i.index < d.nodes.size → d'.kindAt i = d.kindAt i
  behind : ∀ i : NodeId, d.nodes.size ≤ i.index → ∀ child ∈ (d'.kindAt i).children,
    i.index < child.index ∧ child.index < d'.nodes.size
  scalar : ∀ i : NodeId, d.nodes.size ≤ i.index → ∀ key ∈ (d'.kindAt i).keys,
    ∃ text style, d'.kindAt key = .scalar text style
  apart : ∀ i : NodeId, d.nodes.size ≤ i.index → (d'.kindAt i).children.Nodup
  once : ∀ i j : NodeId, d.nodes.size ≤ i.index → d.nodes.size ≤ j.index →
    ∀ child ∈ (d'.kindAt i).children, child ∈ (d'.kindAt j).children → i = j

namespace Grows

/-- What is referred to is as old as what refers to it. -/
theorem lt_size_iff (hgrows : d.Grows d') (h : d.Sound) (hmem : child ∈ (d'.kindAt id).children) :
    child.index < d.nodes.size ↔ id.index < d.nodes.size := by
  by_cases hid : id.index < d.nodes.size
  · rw [hgrows.old id hid] at hmem
    exact iff_of_true (h.behind id child hmem).2 hid
  · have hlt := (hgrows.behind id (Nat.le_of_not_lt hid) child hmem).1
    omega

theorem sound (hgrows : d.Grows d') (h : d.Sound) : d'.Sound := by
  have hroot : d'.root.index < d.nodes.size := by
    rw [hgrows.root]
    exact h.root
  constructor
  case root => exact Nat.lt_of_lt_of_le hroot hgrows.size
  case behind =>
    intro i child hmem
    by_cases hi : i.index < d.nodes.size
    · rw [hgrows.old i hi] at hmem
      obtain ⟨hlt, hsize⟩ := h.behind i child hmem
      exact ⟨hlt, Nat.lt_of_lt_of_le hsize hgrows.size⟩
    · exact hgrows.behind i (Nat.le_of_not_lt hi) child hmem
  case scalar =>
    intro i key hmem
    by_cases hi : i.index < d.nodes.size
    · rw [hgrows.old i hi] at hmem
      rw [hgrows.old key (h.behind i key (List.mem_append_left _ hmem)).2]
      exact h.scalar i key hmem
    · exact hgrows.scalar i (Nat.le_of_not_lt hi) key hmem
  case apart =>
    intro i
    by_cases hi : i.index < d.nodes.size
    · rw [hgrows.old i hi]
      exact h.apart i
    · exact hgrows.apart i (Nat.le_of_not_lt hi)
  case once =>
    intro i j child hmem hmem'
    by_cases hi : i.index < d.nodes.size
    · have hj := (hgrows.lt_size_iff h hmem').1 ((hgrows.lt_size_iff h hmem).2 hi)
      rw [hgrows.old i hi] at hmem
      rw [hgrows.old j hj] at hmem'
      exact h.once i j child hmem hmem'
    · have hj : ¬ j.index < d.nodes.size :=
        fun hj ↦ hi ((hgrows.lt_size_iff h hmem).1 ((hgrows.lt_size_iff h hmem').2 hj))
      exact hgrows.once i j (Nat.le_of_not_lt hi) (Nat.le_of_not_lt hj) child hmem hmem'
  case top =>
    intro i hmem
    have hi := (hgrows.lt_size_iff h hmem).1 hroot
    rw [hgrows.old i hi, hgrows.root] at hmem
    exact h.top i hmem

theorem loose (hgrows : d.Grows d') (h : d.Sound) (hloose : d.Loose id) : d'.Loose id := by
  refine ⟨Nat.lt_of_lt_of_le hloose.size hgrows.size, ?_, fun parent hmem ↦ ?_⟩
  · rw [hgrows.root]
    exact hloose.root
  · rw [hgrows.old parent ((hgrows.lt_size_iff h hmem).1 hloose.size)] at hmem
    exact hloose.free parent hmem

/-- A new node that no new node refers to hangs nowhere. -/
theorem loose_new (hgrows : d.Grows d') (h : d.Sound) (hid : d.nodes.size ≤ id.index)
    (hlt : id.index < d'.nodes.size)
    (hfree : ∀ parent : NodeId, d.nodes.size ≤ parent.index → id ∉ (d'.kindAt parent).children) :
    d'.Loose id := by
  refine ⟨hlt, ?_, fun parent hmem ↦ ?_⟩
  · rintro rfl
    rw [hgrows.root] at hid
    exact absurd h.root (Nat.not_lt_of_le hid)
  · have hparent : ¬ parent.index < d.nodes.size :=
      fun hparent ↦ absurd ((hgrows.lt_size_iff h hmem).2 hparent) (Nat.not_lt_of_le hid)
    exact hfree parent (Nat.le_of_not_lt hparent) hmem

end Grows

theorem kindAt_addNode (d : Document) (kind : NodeKind) (i : NodeId) :
    (d.addNode kind).1.kindAt i = if i.index = d.nodes.size then kind else d.kindAt i := by
  rw [kindAt, node?_addNode]
  by_cases hi : i.index = d.nodes.size
  · rw [if_pos hi, if_pos hi]
  · rw [if_neg hi, if_neg hi, kindAt]

theorem children_addNode (hkind : kind.children = []) {i : NodeId} (hi : d.nodes.size ≤ i.index) :
    ((d.addNode kind).1.kindAt i).children = [] := by
  rw [kindAt_addNode]
  split
  · exact hkind
  · rw [kindAt_of_size_le hi]
    rfl

theorem grows_addNode (hkind : kind.children = []) : d.Grows (d.addNode kind).1 := by
  refine ⟨rfl, ?_, fun i hi ↦ ?_, fun i hi child hmem ↦ ?_, fun i hi key hmem ↦ ?_, fun i hi ↦ ?_,
    fun i j hi _ child hmem ↦ ?_⟩
  · rw [size_addNode]
    exact Nat.le_succ _
  · rw [kindAt_addNode, if_neg (Nat.ne_of_lt hi)]
  · rw [children_addNode hkind hi] at hmem
    cases hmem
  · have hmem' := List.mem_append_left ((d.addNode kind).1.kindAt i).values hmem
    change key ∈ ((d.addNode kind).1.kindAt i).children at hmem'
    rw [children_addNode hkind hi] at hmem'
    cases hmem'
  · rw [children_addNode hkind hi]
    exact List.nodup_nil
  · rw [children_addNode hkind hi] at hmem
    cases hmem

theorem Sound.loose_addNode (h : d.Sound) (hkind : kind.children = []) :
    (d.addNode kind).1.Loose ⟨d.nodes.size⟩ := by
  refine (grows_addNode hkind).loose_new h (Nat.le_refl _) ?_ fun parent hparent ↦ ?_
  · rw [size_addNode]
    exact Nat.lt_succ_self _
  · rw [children_addNode hkind hparent]
    exact List.not_mem_nil

/-! ## Edits -/

theorem kindAt_setKind (h : d.node? id = some node) (kind : NodeKind) (i : NodeId) :
    (d.setKind id kind).kindAt i = if i = id then kind else d.kindAt i := by
  rw [kindAt, node?_setKind]
  by_cases hi : i = id
  · rw [if_pos hi, if_pos hi, hi, h]
    rfl
  · rw [if_neg hi, if_neg hi, kindAt]

theorem kindAt_appendEntry {entries : List (NodeId × NodeId)} {c : Comments}
    (h : d.node? map = some ⟨.mapping entries, c⟩) (key value i : NodeId) :
    (d.appendEntry map key value).kindAt i =
      if i = map then .mapping (entries ++ [(key, value)]) else d.kindAt i := by
  rw [kindAt, node?_appendEntry h]
  by_cases hi : i = map
  · rw [if_pos hi, if_pos hi]
  · rw [if_neg hi, if_neg hi, kindAt]

/-! ### The entries of one mapping -/

theorem children_append (entries : List (NodeId × NodeId)) (key value : NodeId) :
    (NodeKind.mapping (entries ++ [(key, value)])).children.Perm
      (key :: value :: (NodeKind.mapping entries).children) := by
  rw [List.perm_iff_count]
  intro a
  simp only [NodeKind.children, NodeKind.keys, NodeKind.values, List.map_append, List.map_cons,
    List.map_nil, List.count_append, List.count_cons, List.count_nil]
  omega

theorem cons_set_perm {α : Type} {l : List α} {i : Nat} {old : α} (h : l[i]? = some old) (new : α) :
    (old :: l.set i new).Perm (new :: l) := by
  induction l generalizing i with
  | nil => cases h
  | cons a l ih =>
    cases i with
    | zero =>
      obtain rfl := Option.some.inj h
      exact .swap new a l
    | succ i =>
      have hswap : (old :: a :: l.set i new).Perm (a :: old :: l.set i new) := .swap a old _
      exact hswap.trans (((ih h).cons a).trans (.swap new a l))

theorem children_set {entries : List (NodeId × NodeId)} {i : Nat} {key old : NodeId}
    (h : entries[i]? = some (key, old)) (new : NodeId) :
    (old :: (NodeKind.mapping (entries.set i (key, new))).children).Perm
      (new :: (NodeKind.mapping entries).children) := by
  have hkeys : (entries.map Prod.fst).set i key = entries.map Prod.fst := by
    apply List.ext_getElem?
    intro j
    rw [List.getElem?_set]
    split
    · rename_i heq
      subst heq
      have hkey : (entries.map Prod.fst)[i]? = some key := by rw [List.getElem?_map, h]; rfl
      rw [hkey, if_pos (List.getElem?_eq_some_iff.1 hkey).1]
    · rfl
  have hold : (entries.map Prod.snd)[i]? = some old := by rw [List.getElem?_map, h]; rfl
  rw [NodeKind.children, NodeKind.children, NodeKind.keys, NodeKind.keys, NodeKind.values,
    NodeKind.values, List.map_set, List.map_set, hkeys]
  have hmove := (cons_set_perm hold new).append_left (entries.map Prod.fst)
  exact List.perm_middle.symm.trans (hmove.trans List.perm_middle)

namespace Sound

/-- A mapping is no key. -/
theorem not_key_of_mapping {entries : List (NodeId × NodeId)} {c : Comments} (h : d.Sound)
    (hnode : d.node? map = some ⟨.mapping entries, c⟩) (i : NodeId) : map ∉ (d.kindAt i).keys := by
  intro hmem
  obtain ⟨text, style, hscalar⟩ := h.scalar i map hmem
  rw [kindAt_eq hnode] at hscalar
  cases hscalar

/-- Two loose nodes are hung in a mapping that stands before them. -/
theorem appendEntry {entries : List (NodeId × NodeId)} {c : Comments} {key : NodeId} (h : d.Sound)
    (hmap : d.node? map = some ⟨.mapping entries, c⟩) (hkey : d.Loose key) (hvalue : d.Loose value)
    (hne : key ≠ value) (hkeyBehind : map.index < key.index)
    (hvalueBehind : map.index < value.index)
    (hscalar : ∃ text style, d.kindAt key = .scalar text style) :
    (d.appendEntry map key value).Sound := by
  have hkind : d.kindAt map = .mapping entries := kindAt_eq hmap
  have hperm := children_append entries key value
  rw [← hkind] at hperm
  refine h.change map (root_modify _ _ _) (size_modify _ _ _) (kindAt_appendEntry hmap key value)
    ?_ (fun child hmem ↦ ?_) (fun key' hmem ↦ ?_) (.inr (h.not_key_of_mapping hmap))
  · rw [hperm.nodup_iff, List.nodup_cons, List.nodup_cons, List.mem_cons, not_or]
    exact ⟨⟨hne, hkey.free map⟩, hvalue.free map, h.apart map⟩
  · rw [hperm.mem_iff, List.mem_cons, List.mem_cons] at hmem
    rcases hmem with rfl | rfl | hold
    · exact .inr ⟨hkey, hkeyBehind⟩
    · exact .inr ⟨hvalue, hvalueBehind⟩
    · exact .inl hold
  · rw [NodeKind.keys, List.map_append, List.mem_append] at hmem
    rcases hmem with hold | hnew
    · exact h.scalar map key' (hkind ▸ hold)
    · obtain rfl := List.mem_singleton.1 hnew
      exact hscalar

theorem addEntry {entries : List (NodeId × NodeId)} {c : Comments} (h : d.Sound)
    (hmap : d.node? map = some ⟨.mapping entries, c⟩) (key : String) (hkind : kind.children = []) :
    (d.addEntry map key kind).Sound := by
  have hlt := lt_size_of_node? hmap
  have hkeyGrows : d.Grows (d.addScalar key).1 := grows_addNode rfl
  have hkeySound := hkeyGrows.sound h
  have hkeySize : (d.addScalar key).1.nodes.size = d.nodes.size + 1 := size_addNode d _
  have hgrows : (d.addScalar key).1.Grows ((d.addScalar key).1.addNode kind).1 :=
    grows_addNode hkind
  have hmap' : ((d.addScalar key).1.addNode kind).1.node? map = some ⟨.mapping entries, c⟩ := by
    rw [node?_addNode, addScalar, node?_addNode, size_addNode, if_neg (by omega), if_neg (by omega),
      hmap]
  have hkey : (d.addScalar key).1.Loose ⟨d.nodes.size⟩ := h.loose_addNode rfl
  have hvalue := hkeySound.loose_addNode hkind
  rw [hkeySize] at hvalue
  refine (hgrows.sound hkeySound).appendEntry hmap' (hgrows.loose hkeySound hkey) hvalue ?_ hlt
    (Nat.lt_succ_of_lt hlt) ?_
  · exact fun heq ↦ Nat.ne_of_lt (Nat.lt_succ_self _) (congrArg NodeId.index heq)
  · rw [hgrows.old _ hkey.size, addScalar, kindAt_addNode, if_pos rfl]
    exact ⟨_, _, rfl⟩

/-- A node that stays as it is or becomes a scalar or an empty mapping that is no key. -/
theorem setText {text key : String} {entry : Entry} (h : d.Sound)
    (hset : d.setText map key text = .ok (d', entry)) : d'.Sound := by
  obtain ⟨hmap, ⟨hfound, old, style, c, hnode, rfl⟩ | ⟨-, rfl⟩⟩ := setText_cases hset
  · exact h.change entry.value (root_modify _ _ _) (size_modify _ _ _) (kindAt_setKind hnode _)
      List.nodup_nil (List.forall_mem_nil _) (List.forall_mem_nil _) (.inl ⟨_, _, rfl⟩)
  · obtain ⟨entries, c, hnode⟩ := node?_of_isMapping hmap
    exact h.addEntry hnode key rfl

theorem removeEntry {key : String} {entry : Entry} (h : d.Sound)
    (hremove : d.removeEntry map key = some (d', entry)) : d'.Sound := by
  obtain ⟨hfound, rfl⟩ := removeEntry_cases hremove
  obtain ⟨c, hnode⟩ := node?_of_mem_entries (mem_entries_of_found hfound)
  have hkind : d.kindAt map = .mapping (d.entries map) := kindAt_eq hnode
  have hentries := List.eraseIdx_sublist (d.entries map) entry.index
  have hchildren : (NodeKind.mapping ((d.entries map).eraseIdx entry.index)).children.Sublist
      (d.kindAt map).children := by
    rw [hkind]
    exact (hentries.map Prod.fst).append (hentries.map Prod.snd)
  refine h.change map (root_modify _ _ _) (size_modify _ _ _) (kindAt_setKind hnode _)
    ((h.apart map).sublist hchildren) (fun child hmem ↦ .inl (hchildren.subset hmem))
    (fun key' hmem ↦ h.scalar map key' ?_) (.inr (h.not_key_of_mapping hnode))
  rw [hkind]
  exact (hentries.map Prod.fst).subset hmem

theorem ensureMapping {key : String} (h : d.Sound)
    (hensure : d.ensureMapping map key = .ok (d', value)) : d'.Sound := by
  obtain ⟨hmap, ⟨entry, hfound, rfl, ⟨-, rfl⟩ | ⟨c, hnode, rfl⟩⟩ | ⟨-, -, rfl⟩⟩ :=
    ensureMapping_cases hensure
  · exact h
  · have hvalue := (mem_children_of_entry (mem_entries_of_found hfound)).2
    exact h.change entry.value (root_modify _ _ _) (size_modify _ _ _) (kindAt_setKind hnode _)
      List.nodup_nil (List.forall_mem_nil _) (List.forall_mem_nil _)
      (.inr fun i hmem ↦ h.ne_of_key hmem hvalue rfl)
  · obtain ⟨entries, c, hnode⟩ := node?_of_isMapping hmap
    exact h.addEntry hnode key rfl

/-- A loose node is hung in a mapping that stands before it. -/
theorem spliceValue {node : Node} (h : d.Sound) (key : String) (hmap : d.isMapping map = true)
    (hnode : d.node? value = some node) (hvalue : d.Loose value)
    (hbehind : map.index < value.index) :
    (d.spliceValue map key value).Sound := by
  rcases spliceValue_cases key hmap hnode with ⟨entry, hfound, heq⟩ | ⟨-, heq⟩
  · obtain ⟨c, hparent⟩ := node?_of_mem_entries (mem_entries_of_found hfound)
    have hkind : d.kindAt map = .mapping (d.entries map) := kindAt_eq hparent
    have hperm := children_set (findEntry?_eq_some_iff.1 hfound).2 value
    rw [← hkind] at hperm
    have hnodup := hperm.nodup_iff.2 (List.nodup_cons.2 ⟨hvalue.free map, h.apart map⟩)
    rw [heq]
    refine h.change map (root_modify _ _ _) (size_modify _ _ _) (kindAt_setKind hparent _)
      (List.nodup_cons.1 hnodup).2 (fun child hmem ↦ ?_) (fun key' hmem ↦ ?_)
      (.inr (h.not_key_of_mapping hparent))
    · rcases List.mem_cons.1 (hperm.mem_iff.1 (List.mem_cons_of_mem _ hmem)) with rfl | hold
      · exact .inr ⟨hvalue, hbehind⟩
      · exact .inl hold
    · obtain ⟨⟨k, v⟩, hentry, rfl⟩ := List.mem_map.1 hmem
      rcases List.mem_or_eq_of_mem_set hentry with hold | hnew
      · exact h.scalar map k (mem_children_of_entry hold).1
      · obtain ⟨rfl, rfl⟩ := Prod.mk.inj hnew
        exact h.scalar map entry.key (mem_children_of_entry (mem_entries_of_found hfound)).1
  · obtain ⟨entries, c, hparent⟩ := node?_of_isMapping hmap
    have hlt := lt_size_of_node? hparent
    have hgrows : d.Grows (d.addScalar key).1 := grows_addNode rfl
    have hparent' : (d.addScalar key).1.node? map = some ⟨.mapping entries, c⟩ := by
      rw [addScalar, node?_addNode, if_neg (by omega), hparent]
    rw [heq]
    refine (hgrows.sound h).appendEntry hparent' (h.loose_addNode rfl) (hgrows.loose h hvalue) ?_
      hlt hbehind ?_
    · rintro rfl
      exact Nat.lt_irrefl _ hvalue.size
    · rw [addScalar, kindAt_addNode, if_pos rfl]
      exact ⟨_, _, rfl⟩

end Sound

/-! ## Added trees -/

/-- All references of some nodes. -/
def references (nodes : List Node) : List NodeId :=
  nodes.flatMap fun node ↦ node.kind.children

theorem references_append (a b : List Node) : references (a ++ b) = references a ++ references b :=
  List.flatMap_append

theorem references_cons (node : Node) (rest : List Node) :
    references (node :: rest) = node.kind.children ++ references rest :=
  List.flatMap_cons

mutual

/-- The nodes of a tree refer to each of them once, apart from the first one. -/
theorem references_layout : ∀ (t : Tree) (base : Nat),
    (⟨base⟩ :: references (layout base t)).Perm (span base t.size)
  | .scalar .., _ => .refl _
  | .mapping _ entries, base => by
    rw [layout, references_cons, Tree.size, span_succ]
    exact (references_entryLayout entries (base + 1)).cons _
  | .sequence _ items, base => by
    rw [layout, references_cons, Tree.size, span_succ]
    exact (references_itemLayout items (base + 1)).cons _

theorem references_entryLayout : ∀ (entries : List (Tree × Tree)) (base : Nat),
    ((NodeKind.mapping (entryIds base entries)).children ++
      references (entryLayout base entries)).Perm (span base (Tree.entriesSize entries))
  | [], _ => .refl _
  | (key, value) :: rest, base => by
    have hkey := List.perm_iff_count.1 (references_layout key base)
    have hvalue := List.perm_iff_count.1 (references_layout value (base + key.size))
    have hrest := List.perm_iff_count.1 (references_entryLayout rest (base + key.size + value.size))
    rw [List.perm_iff_count]
    intro a
    rw [entryIds, entryLayout, references_append, references_append, Tree.entriesSize, span_append,
      span_append, ← Nat.add_assoc, List.count_append, List.count_append, List.count_append,
      List.count_append, List.count_append, ← hkey, ← hvalue, ← hrest]
    simp only [NodeKind.children, NodeKind.keys, NodeKind.values, List.map_cons, List.count_append,
      List.count_cons]
    omega

theorem references_itemLayout : ∀ (items : List Tree) (base : Nat),
    ((NodeKind.sequence (itemIds base items)).children ++
      references (itemLayout base items)).Perm (span base (Tree.itemsSize items))
  | [], _ => .refl _
  | item :: rest, base => by
    have hitem := List.perm_iff_count.1 (references_layout item base)
    have hrest := List.perm_iff_count.1 (references_itemLayout rest (base + item.size))
    rw [List.perm_iff_count]
    intro a
    rw [itemIds, itemLayout, references_append, Tree.itemsSize, span_append, List.count_append,
      List.count_append, List.count_append, ← hitem, ← hrest]
    simp only [NodeKind.children, NodeKind.keys, NodeKind.values, List.count_append,
      List.count_cons]
    omega

end

/-- The table of a tree that was read from a file, wherever it begins. -/
theorem orderly_fileLayout {t : Tree} (h : t.IsFile) (base : Nat) :
    ∀ n node, (layout base t)[n]? = some node →
      Node.Orderly (fun id ↦ KeyPlace base t id.index) ⟨base⟩ (base + t.size) ⟨base + n⟩ node := by
  cases h with
  | mapping hc hkeys hvalues =>
    rename_i c entries
    intro n node hnode
    rw [Tree.size, ← Nat.add_assoc]
    cases n with
    | zero =>
      obtain rfl := Option.some.inj hnode
      refine orderly_mapping hc (fun hroot ↦ absurd rfl hroot) (Nat.le_refl base) (Nat.le_refl _)
        (fun hkey ↦ ?_) (fun _ _ _ ↦ Iff.rfl)
      exact Nat.lt_irrefl base (KeyPlace.bounds (.mapping c entries) hkey).1
    | succ n =>
      have hindex : base + (n + 1) = base + 1 + n := by omega
      rw [hindex]
      exact orderly_entryLayout entries hkeys hvalues (Nat.lt_succ_self base) (Nat.le_refl _)
        (fun _ _ _ ↦ Iff.rfl) n node hnode

/-- A place behind the old nodes is one of the added tree or outside the table. -/
theorem added_cases (d : Document) (t : Tree) {i : NodeId} (hi : d.nodes.size ≤ i.index) :
    (∃ n node, i = ⟨d.nodes.size + n⟩ ∧ (layout d.nodes.size t)[n]? = some node ∧
        (d.addTree t).1.kindAt i = node.kind) ∨
      (d.nodes.size + t.size ≤ i.index ∧ (d.addTree t).1.kindAt i = .sequence []) := by
  have hnode : (d.addTree t).1.node? i = (layout d.nodes.size t)[i.index - d.nodes.size]? := by
    simp only [node?, addTree]
    rw [Array.getElem?_append_right hi, List.getElem?_toArray]
  cases hlayout : (layout d.nodes.size t)[i.index - d.nodes.size]? with
  | none =>
    rw [hlayout] at hnode
    rw [List.getElem?_eq_none_iff, length_layout] at hlayout
    exact .inr ⟨by omega, by rw [kindAt, hnode]⟩
  | some node =>
    rw [hlayout] at hnode
    refine .inl ⟨i.index - d.nodes.size, node, ?_, hlayout, kindAt_eq hnode⟩
    rw [Nat.add_sub_cancel' hi]

theorem grows_addTree (d : Document) {t : Tree} (h : t.IsFile) : d.Grows (d.addTree t).1 := by
  have hnodup : (references (layout d.nodes.size t)).Nodup :=
    (List.nodup_cons.1 ((references_layout t d.nodes.size).nodup_iff.2 (nodup_span _ _))).2
  obtain ⟨hapart, honce⟩ := List.pairwise_flatMap.1 hnodup
  have horderly := orderly_fileLayout h d.nodes.size
  constructor
  case root => rfl
  case size =>
    rw [size_addTree]
    exact Nat.le_add_right _ _
  case old =>
    intro i hi
    rw [kindAt, node?_addTree hi, kindAt]
  case behind =>
    intro i hi child hmem
    obtain ⟨n, node, rfl, hnode, hkind⟩ | ⟨-, hkind⟩ := added_cases d t hi
    · rw [hkind, NodeKind.children, List.mem_append] at hmem
      rw [size_addTree]
      rcases hmem with hkey | hvalue
      · obtain ⟨hlt, hsize, -⟩ := (horderly n node hnode).keys child hkey
        exact ⟨hlt, hsize⟩
      · obtain ⟨hlt, hsize, -⟩ := (horderly n node hnode).values child hvalue
        exact ⟨hlt, hsize⟩
    · rw [hkind] at hmem
      cases hmem
  case scalar =>
    intro i hi key hmem
    obtain ⟨n, node, rfl, hnode, hkind⟩ | ⟨-, hkind⟩ := added_cases d t hi
    · rw [hkind] at hmem
      obtain ⟨hlt, hsize, hkey⟩ := (horderly n node hnode).keys key hmem
      have hbehind : d.nodes.size ≤ key.index := Nat.le_of_lt (Nat.lt_of_le_of_lt hi hlt)
      obtain ⟨m, node', rfl, hnode', hkind'⟩ | ⟨houtside, -⟩ := added_cases d t hbehind
      · obtain ⟨text, style, hscalar⟩ := (horderly m node' hnode').scalar hkey
        exact ⟨text, style, hkind'.trans hscalar⟩
      · exact absurd hsize (Nat.not_lt_of_le houtside)
    · rw [hkind] at hmem
      cases hmem
  case apart =>
    intro i hi
    obtain ⟨n, node, rfl, hnode, hkind⟩ | ⟨-, hkind⟩ := added_cases d t hi
    · rw [hkind]
      exact hapart node (List.mem_of_getElem? hnode)
    · rw [hkind]
      exact List.nodup_nil
  case once =>
    intro i j hi hj child hmem hmem'
    obtain ⟨n, node, rfl, hnode, hkind⟩ | ⟨-, hkind⟩ := added_cases d t hi
    · obtain ⟨m, node', rfl, hnode', hkind'⟩ | ⟨-, hkind'⟩ := added_cases d t hj
      · rw [hkind] at hmem
        rw [hkind'] at hmem'
        obtain ⟨hn, rfl⟩ := List.getElem?_eq_some_iff.1 hnode
        obtain ⟨hm, rfl⟩ := List.getElem?_eq_some_iff.1 hnode'
        rcases Nat.lt_trichotomy n m with hlt | rfl | hlt
        · exact absurd rfl (List.pairwise_iff_getElem.1 honce n m hn hm hlt child hmem child hmem')
        · rfl
        · exact absurd rfl (List.pairwise_iff_getElem.1 honce m n hm hn hlt child hmem' child hmem)
      · rw [hkind'] at hmem'
        cases hmem'
    · rw [hkind] at hmem
      cases hmem

/-- The root of an added tree hangs nowhere. -/
theorem Sound.loose_addTree {t : Tree} (h : d.Sound) (ht : t.IsFile) :
    (d.addTree t).1.Loose (d.addTree t).2 := by
  have hgrows := grows_addTree d ht
  refine hgrows.loose_new h (Nat.le_refl _) ?_ fun parent hparent hmem ↦ ?_
  · rw [size_addTree]
    exact Nat.lt_add_of_pos_right t.size_pos
  · exact Nat.lt_irrefl _ (Nat.lt_of_le_of_lt hparent (hgrows.behind parent hparent _ hmem).1)

/-! ## Documents that were read -/

theorem sound_root (c : Comments) : Sound ⟨#[⟨.mapping [], c⟩], ⟨0⟩⟩ := by
  have hnone (i : NodeId) : (kindAt ⟨#[⟨.mapping [], c⟩], ⟨0⟩⟩ i).children = [] := by
    obtain ⟨_ | index⟩ := i
    · rfl
    · rfl
  have hkeys (i : NodeId) : (kindAt ⟨#[⟨.mapping [], c⟩], ⟨0⟩⟩ i).keys = [] :=
    (List.append_eq_nil_iff.1 (hnone i)).1
  refine ⟨Nat.one_pos, fun i ↦ ?_, fun i ↦ ?_, fun i ↦ ?_, fun i j child hmem ↦ ?_, fun i ↦ ?_⟩
  · rw [hnone]
    exact List.forall_mem_nil _
  · rw [hkeys]
    exact List.forall_mem_nil _
  · rw [hnone]
    exact List.nodup_nil
  · rw [hnone] at hmem
    cases hmem
  · rw [hnone]
    exact List.not_mem_nil

theorem Sound.withRoot (h : d.Sound) (hloose : d.Loose id) : Sound { d with root := id } :=
  ⟨hloose.size, h.behind, h.scalar, h.apart, h.once, hloose.free⟩

/-- The table of a text that was read is sound, and its tree can be written as a file. -/
theorem sound_of_parse {text : String} (h : parse text = .ok d) :
    d.Sound ∧ ∃ t, d.tree? = some t ∧ t.IsFile := by
  obtain ⟨isKey, horderly⟩ := orderly_of_parse h
  refine ⟨?_, horderly.exists_tree⟩
  rcases ofFile_of_parse h with ⟨foot, hfoot, rfl⟩ | ⟨t, ht, rfl⟩
  · exact sound_root _
  · exact ((grows_addTree empty ht).sound (sound_root {})).withRoot
      ((sound_root {}).loose_addTree ht)

/-- A whole file is hung in the root. -/
theorem Sound.graft {t : Tree} (h : d.Sound) (ht : t.IsFile) (key : String) :
    ((d.addTree t).1.spliceValue d.root key (d.addTree t).2).Sound := by
  have hgrows := grows_addTree d ht
  have hloose := h.loose_addTree ht
  by_cases hmap : (d.addTree t).1.isMapping d.root = true
  · obtain ⟨node, hnode⟩ := exists_node hloose.size
    exact (hgrows.sound h).spliceValue key hmap hnode hloose h.root
  · rw [Bool.not_eq_true] at hmap
    rw [Document.spliceValue, if_pos (by rw [hmap]; rfl)]
    exact hgrows.sound h

end

end Document

end LayeredConfig
