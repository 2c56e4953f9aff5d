import LayeredConfig.Proofs.Document.Locality
import LayeredConfig.Proofs.Document.Shared

/-!
# Grafting

A node of one document can be copied into another one node by node: first what it refers to, keys
before values, then the node itself with its comments. The copy hangs from nodes of its own and has
the same tree as one that is added as a whole. Hung under a key of a mapping it takes the place of
the value there or comes last, and the other entries are written as before.
-/

namespace LayeredConfig.Document

open LayeredConfig.Tree

/-! ## Copying node by node -/

/-- Adds a node with its comments. -/
def putNode (d : Document) (node : Node) : Document × NodeId :=
  let (d, id) := d.addNode node.kind
  (d.modify id fun added ↦ { added with comments := node.comments }, id)

section

variable (copy : Document → NodeId → Option (Document × NodeId))

def copyEntries (d : Document) :
    List (NodeId × NodeId) → Option (Document × List (NodeId × NodeId))
  | [] => some (d, [])
  | (key, value) :: rest => do
    let (d, key) ← copy d key
    let (d, value) ← copy d value
    let (d, rest) ← copyEntries d rest
    return (d, (key, value) :: rest)

def copyItems (d : Document) : List NodeId → Option (Document × List NodeId)
  | [] => some (d, [])
  | item :: rest => do
    let (d, item) ← copy d item
    let (d, rest) ← copyItems d rest
    return (d, item :: rest)

end

/-- Copies a node of another document, with at most `depth` levels below it. -/
def graftFrom (source : Document) : Nat → Document → NodeId → Option (Document × NodeId)
  | 0, _, _ => none
  | depth + 1, d, id => do
    let ⟨kind, comments⟩ ← source.node? id
    match kind with
    | .scalar text style => return d.putNode ⟨.scalar text style, comments⟩
    | .mapping entries =>
      let (d, entries) ← copyEntries (graftFrom source depth) d entries
      return d.putNode ⟨.mapping entries, comments⟩
    | .sequence items =>
      let (d, items) ← copyItems (graftFrom source depth) d items
      return d.putNode ⟨.sequence items, comments⟩

/-- Copies a node of another document. No path through its tree is longer than the table. -/
def graft (d source : Document) (id : NodeId) : Option (Document × NodeId) :=
  graftFrom source source.nodes.size d id

section

variable {d d' d'' source : Document} {id map : NodeId} {node : Node} {t : Tree}
  {places places' : List NodeId} {depth : Nat}

/-! ## New nodes -/

@[simp] theorem size_putNode (d : Document) (node : Node) :
    (d.putNode node).1.nodes.size = d.nodes.size + 1 := by
  rw [putNode, size_modify, size_addNode]

theorem node?_putNode (d : Document) (node : Node) (i : NodeId) :
    (d.putNode node).1.node? i = if i.index = d.nodes.size then some node else d.node? i := by
  have hid : i = (d.addNode node.kind).2 ↔ i.index = d.nodes.size := index_inj.symm
  rw [putNode, node?_modify, node?_addNode]
  by_cases hi : i.index = d.nodes.size
  · rw [if_pos hi, if_pos (hid.2 hi), if_pos hi]
    rfl
  · rw [if_neg hi, if_neg fun heq ↦ hi (hid.1 heq), if_neg hi]

/-- Nodes were added behind the table, those at some places among them. -/
structure Grown (d d' : Document) (places : List NodeId) : Prop where
  root : d'.root = d.root
  size : d.nodes.size ≤ d'.nodes.size
  kept : ∀ i : NodeId, i.index < d.nodes.size → d'.node? i = d.node? i
  nodup : places.Nodup
  new : ∀ i ∈ places, d.nodes.size ≤ i.index ∧ i.index < d'.nodes.size

theorem Grown.refl (d : Document) : Grown d d [] :=
  ⟨rfl, Nat.le_refl _, fun _ _ ↦ rfl, List.nodup_nil, List.forall_mem_nil _⟩

theorem Grown.trans (h : Grown d d' places) (h' : Grown d' d'' places') :
    Grown d d'' (places ++ places') where
  root := h'.root.trans h.root
  size := Nat.le_trans h.size h'.size
  kept i hi := (h'.kept i (Nat.lt_of_lt_of_le hi h.size)).trans (h.kept i hi)
  nodup := by
    refine List.nodup_append.2 ⟨h.nodup, h'.nodup, ?_⟩
    rintro i hi _ hi' rfl
    exact Nat.not_lt_of_le (h'.new i hi').1 (h.new i hi).2
  new := by
    refine List.forall_mem_append.2 ⟨fun i hi ↦ ?_, fun i hi ↦ ?_⟩
    · exact ⟨(h.new i hi).1, Nat.lt_of_lt_of_le (h.new i hi).2 h'.size⟩
    · exact ⟨Nat.le_trans h.size (h'.new i hi).1, (h'.new i hi).2⟩

theorem Grown.putNode (h : Grown d d' places) (node : Node) :
    Grown d (d'.putNode node).1 (⟨d'.nodes.size⟩ :: places) where
  root := h.root
  size := by
    rw [size_putNode]
    exact Nat.le_succ_of_le h.size
  kept i hi := by
    rw [node?_putNode, if_neg (Nat.ne_of_lt (Nat.lt_of_lt_of_le hi h.size)), h.kept i hi]
  nodup := by
    refine List.nodup_cons.2 ⟨fun hmem ↦ ?_, h.nodup⟩
    exact Nat.lt_irrefl _ (h.new _ hmem).2
  new := by
    rw [size_putNode, List.forall_mem_cons]
    exact ⟨⟨h.size, Nat.lt_succ_self _⟩,
      fun i hi ↦ ⟨(h.new i hi).1, Nat.lt_succ_of_lt (h.new i hi).2⟩⟩

theorem Grown.addTree (d : Document) (t : Tree) :
    Grown d (d.addTree t).1 (span d.nodes.size t.size) where
  root := rfl
  size := by
    rw [size_addTree]
    exact Nat.le_add_right _ _
  kept i hi := node?_addTree hi t
  nodup := nodup_span _ _
  new i hi := by
    rw [size_addTree]
    exact mem_span.1 hi

theorem Hangs.grown (h : Hangs d t id places) (hgrown : Grown d d' places') :
    Hangs d' t id places :=
  h.frame fun i hi ↦ hgrown.kept i (h.lt_size i hi)

/-! ## The copied tree -/

/-- What a copying function makes of each tree of the source. -/
def Copies (source : Document) (depth : Nat)
    (copy : Document → NodeId → Option (Document × NodeId)) : Prop :=
  ∀ {d : Document} {n : NodeId} {t : Tree}, unfold source.nodes depth n = some t →
    ∃ d' id places, copy d n = some (d', id) ∧ Hangs d' t id places ∧ Grown d d' places

variable {copy : Document → NodeId → Option (Document × NodeId)}

theorem Copies.entries (hcopy : Copies source depth copy) {entries : List (NodeId × NodeId)}
    {trees : List (Tree × Tree)}
    (h : entries.mapM (unfoldEntry source.nodes depth) = some trees) (d : Document) :
    ∃ d' ids places, copyEntries copy d entries = some (d', ids) ∧
      HangEntries d' trees ids places ∧ Grown d d' places := by
  induction entries generalizing d trees with
  | nil =>
    obtain rfl := Option.some.inj h
    exact ⟨d, [], [], rfl, .nil, .refl d⟩
  | cons entry entries ih =>
    obtain ⟨⟨k, v⟩, rest, hpair, hrest, rfl⟩ := mapM_cons_eq_some_iff.1 h
    obtain ⟨hk, hv⟩ := unfoldEntry_eq_some_iff.1 hpair
    obtain ⟨d₁, key, keyPlaces, hcopyKey, hkey, hgrownKey⟩ := hcopy (d := d) hk
    obtain ⟨d₂, value, valuePlaces, hcopyValue, hvalue, hgrownValue⟩ := hcopy (d := d₁) hv
    obtain ⟨d₃, ids, places, hcopyRest, hhangs, hgrownRest⟩ := ih hrest d₂
    refine ⟨d₃, (key, value) :: ids, keyPlaces ++ (valuePlaces ++ places), ?_, ?_, ?_⟩
    · rw [copyEntries, hcopyKey]
      change (copy d₁ entry.2 >>= _) = _
      rw [hcopyValue]
      change (copyEntries copy d₂ entries >>= _) = _
      rw [hcopyRest]
      rfl
    · have hafter := hgrownValue.trans hgrownRest
      exact .cons (hkey.grown hafter) (hvalue.grown hgrownRest) hhangs
    · exact hgrownKey.trans (hgrownValue.trans hgrownRest)

theorem Copies.items (hcopy : Copies source depth copy) {items : List NodeId} {trees : List Tree}
    (h : items.mapM (unfold source.nodes depth) = some trees) (d : Document) :
    ∃ d' ids places, copyItems copy d items = some (d', ids) ∧
      HangItems d' trees ids places ∧ Grown d d' places := by
  induction items generalizing d trees with
  | nil =>
    obtain rfl := Option.some.inj h
    exact ⟨d, [], [], rfl, .nil, .refl d⟩
  | cons item items ih =>
    obtain ⟨tree, rest, htree, hrest, rfl⟩ := mapM_cons_eq_some_iff.1 h
    obtain ⟨d₁, id, itemPlaces, hcopyItem, hitem, hgrownItem⟩ := hcopy (d := d) htree
    obtain ⟨d₂, ids, places, hcopyRest, hhangs, hgrownRest⟩ := ih hrest d₁
    refine ⟨d₂, id :: ids, itemPlaces ++ places, ?_, .cons (hitem.grown hgrownRest) hhangs,
      hgrownItem.trans hgrownRest⟩
    rw [copyItems, hcopyItem]
    change (copyItems copy d₁ items >>= _) = _
    rw [hcopyRest]
    rfl

theorem copies_graftFrom (source : Document) (depth : Nat) :
    Copies source depth (graftFrom source depth) := by
  induction depth with
  | zero =>
    intro d n t h
    cases h
  | succ depth ih =>
    intro d n t h
    obtain ⟨⟨kind, c⟩, hnode⟩ := exists_node (lt_size_of_unfold h)
    have hput (d : Document) (node : Node) :
        (d.putNode node).1.node? ⟨d.nodes.size⟩ = some node := by
      rw [node?_putNode, if_pos rfl]
    cases kind with
    | scalar text style =>
      rw [unfold_scalar depth hnode] at h
      obtain rfl := Option.some.inj h
      refine ⟨_, _, _, ?_, .scalar (hput d ⟨.scalar text style, c⟩), (Grown.refl d).putNode _⟩
      rw [graftFrom, hnode]
      rfl
    | mapping entries =>
      rw [unfold_mapping depth hnode] at h
      obtain ⟨trees, htrees, rfl⟩ := Option.map_eq_some_iff.1 h
      obtain ⟨d', ids, places, hcopied, hhangs, hgrown⟩ := ih.entries htrees d
      have hgrown' := hgrown.putNode ⟨.mapping ids, c⟩
      have hbelow : HangEntries (d'.putNode ⟨.mapping ids, c⟩).1 trees ids places :=
        hhangs.frame fun i hi ↦ ((Grown.refl d').putNode _).kept i (hhangs.lt_size i hi)
      refine ⟨_, _, _, ?_, .mapping (hput d' ⟨.mapping ids, c⟩) hbelow, hgrown'⟩
      rw [graftFrom, hnode]
      change (copyEntries (graftFrom source depth) d entries >>= _) = _
      rw [hcopied]
      rfl
    | sequence items =>
      rw [unfold_sequence depth hnode] at h
      obtain ⟨trees, htrees, rfl⟩ := Option.map_eq_some_iff.1 h
      obtain ⟨d', ids, places, hcopied, hhangs, hgrown⟩ := ih.items htrees d
      have hgrown' := hgrown.putNode ⟨.sequence ids, c⟩
      have hbelow : HangItems (d'.putNode ⟨.sequence ids, c⟩).1 trees ids places :=
        hhangs.frame fun i hi ↦ ((Grown.refl d').putNode _).kept i (hhangs.lt_size i hi)
      refine ⟨_, _, _, ?_, .sequence (hput d' ⟨.sequence ids, c⟩) hbelow, hgrown'⟩
      rw [graftFrom, hnode]
      change (copyItems (graftFrom source depth) d items >>= _) = _
      rw [hcopied]
      rfl

/-! ## Copies of their own -/

/-- A tree hangs in a grown document from nodes that are all new, each of them once. -/
structure Grafted (d : Document) (t : Tree) (d' : Document) (id : NodeId) : Prop where
  tree : d'.treeAt? id = some t
  root : d'.root = d.root
  size : d.nodes.size ≤ d'.nodes.size
  kept : ∀ i : NodeId, i.index < d.nodes.size → d'.node? i = d.node? i
  own : ∃ places, Hangs d' t id places ∧ places.Nodup ∧ ∀ i ∈ places, d.nodes.size ≤ i.index

theorem Hangs.grafted (h : Hangs d' t id places) (hgrown : Grown d d' places) :
    Grafted d t d' id :=
  ⟨treeAt?_eq_some_iff.2 ⟨_, h⟩, hgrown.root, hgrown.size, hgrown.kept,
    places, h, hgrown.nodup, fun i hi ↦ (hgrown.new i hi).1⟩

/-! ## Hanging a copy under a key -/

/-- The entries of a mapping before and behind a change: the first value under a key is another
one, or there is a new last entry. The lines of the other entries stay what they are. -/
def SplicedEntries (key : String) (t : Tree) (entries entries' : List (Tree × Tree)) : Prop :=
  ∃ before old k after, entries = before ++ (old ++ after) ∧ entries' = before ++ (k, t) :: after ∧
    (∀ entry ∈ before, ¬ hasKey key entry = true) ∧ k.text? = some key ∧
    ((∃ v, old = [(k, v)]) ∨ old = [] ∧ after = [] ∧ k = newScalar key) ∧
    ∀ indent, entryLines indent entries =
        entryLines indent before ++ (entryLines indent old ++ entryLines indent after) ∧
      entryLines indent entries' =
        entryLines indent before ++ (entryLines indent [(k, t)] ++ entryLines indent after)

/-- A node was hung under a key of a mapping, and nothing else changed. -/
structure Spliced (d : Document) (map : NodeId) (key : String) (t : Tree) (id : NodeId)
    (d' : Document) : Prop where
  root : d'.root = d.root
  kept : ∀ i : NodeId, i.index < d.nodes.size → i ≠ map → d'.node? i = d.node? i
  value : d'.treeAt? id = some t
  entries : (∃ entry, d.findEntry? map key = some entry ∧
      d'.entries map = (d.entries map).set entry.index (entry.key, id)) ∨
    (d.findEntry? map key = none ∧ ∃ k : NodeId, d.nodes.size ≤ k.index ∧
      d'.treeAt? k = some (newScalar key) ∧ d'.entries map = d.entries map ++ [(k, id)])
  others : ∀ entry ∈ d.entries map, ∀ exclude,
    d'.encode entry.1 exclude = d.encode entry.1 exclude ∧
      d'.encode entry.2 exclude = d.encode entry.2 exclude
  tree : ∃ c trees trees', d.treeAt? map = some (.mapping c trees) ∧
    d'.treeAt? map = some (.mapping c trees') ∧ SplicedEntries key t trees trees'

variable {key : String} {trees : List (Tree × Tree)} {entries : List (NodeId × NodeId)}
  {c : Comments}

theorem splicedEntries_replaced {before after : List (Tree × Tree)} {k v : Tree}
    (hnone : ∀ entry ∈ before, ¬ hasKey key entry = true) (hkey : k.text? = some key) (t : Tree) :
    SplicedEntries key t (before ++ (k, v) :: after) (before ++ (k, t) :: after) := by
  refine ⟨before, [(k, v)], k, after, rfl, rfl, hnone, hkey, .inl ⟨v, rfl⟩, fun indent ↦ ⟨?_, ?_⟩⟩
  · rw [entryLines_append, ← entryLines_append indent [(k, v)], List.singleton_append]
  · rw [entryLines_append, ← entryLines_append indent [(k, t)], List.singleton_append]

theorem splicedEntries_appended (hnone : ∀ entry ∈ trees, ¬ hasKey key entry = true) (t : Tree) :
    SplicedEntries key t trees (trees ++ [(newScalar key, t)]) := by
  refine ⟨trees, [], newScalar key, [], (List.append_nil _).symm, rfl, hnone, rfl,
    .inr ⟨rfl, rfl, rfl⟩, fun indent ↦ ⟨?_, ?_⟩⟩
  · rw [entryLines, List.nil_append, List.append_nil]
  · rw [entryLines_append, entryLines, List.append_nil]

/-- What the entries become is fixed by the key and the tree. -/
theorem SplicedEntries.updateEntries {trees' : List (Tree × Tree)}
    (h : SplicedEntries key t trees trees') :
    updateEntries key (fun _ ↦ .ok t) trees = .ok trees' := by
  obtain ⟨before, old, k, after, rfl, rfl, hnone, hkey, hold, -⟩ := h
  induction before with
  | nil =>
    rcases hold with ⟨v, rfl⟩ | ⟨rfl, rfl, rfl⟩
    · have hentry : hasKey key (k, v) = true := hasKey_iff.2 hkey
      rw [List.nil_append, List.singleton_append, Tree.updateEntries, if_pos hentry]
      rfl
    · rfl
  | cons entry before ih =>
    rw [List.forall_mem_cons] at hnone
    rw [List.cons_append, Tree.updateEntries, if_neg hnone.1, ih hnone.2]
    rfl

/-- A change at a mapping alone is none below it. -/
theorem HangEntries.node?_eq_of_kept {trees : List (Tree × Tree)}
    {entries : List (NodeId × NodeId)} {places : List NodeId}
    (h : HangEntries d trees entries places) (hnode : d.node? map = some ⟨.mapping entries, c⟩)
    (hkept : ∀ i : NodeId, i.index < d.nodes.size → i ≠ map → d''.node? i = d.node? i) :
    ∀ i ∈ places, d''.node? i = d.node? i :=
  fun i hi ↦ hkept i (h.lt_size i hi) (ne_of_mem_of_not_mem hi (h.notMem hnode))

/-- The entries of a mapping unfold as before when their nodes stay. -/
theorem HangEntries.treeAt?_eq {trees : List (Tree × Tree)} {entries : List (NodeId × NodeId)}
    {places : List NodeId} (h : HangEntries d trees entries places)
    (hsame : ∀ i ∈ places, d'.node? i = d.node? i) :
    ∀ entry ∈ entries, d'.treeAt? entry.1 = d.treeAt? entry.1 ∧
      d'.treeAt? entry.2 = d.treeAt? entry.2 := by
  have heq {t : Tree} {id : NodeId} {below : List NodeId} (ht : Hangs d t id below)
      (hsame : ∀ i ∈ below, d'.node? i = d.node? i) : d'.treeAt? id = d.treeAt? id :=
    (treeAt?_eq_some_iff.2 ⟨_, ht.frame hsame⟩).trans (treeAt?_eq_some_iff.2 ⟨_, ht⟩).symm
  induction entries generalizing trees places with
  | nil => exact List.forall_mem_nil _
  | cons entry entries ih =>
    cases h with
    | cons hkey hvalue hrest =>
      rw [List.forall_mem_append, List.forall_mem_append] at hsame
      exact List.forall_mem_cons.2
        ⟨⟨heq hkey hsame.1, heq hvalue hsame.2.1⟩, ih hrest hsame.2.2⟩

theorem findIdx?_congr {α : Type} {p q : α → Bool} {as : List α} (h : ∀ a ∈ as, p a = q a) :
    as.findIdx? p = as.findIdx? q := by
  induction as with
  | nil => rfl
  | cons a as ih =>
    rw [List.forall_mem_cons] at h
    rw [List.findIdx?_cons, List.findIdx?_cons, h.1, ih h.2]

theorem findEntry?_congr (hentries : d'.entries map = d.entries map)
    (hkeys : ∀ entry ∈ d.entries map, d'.scalar? entry.1 = d.scalar? entry.1) (key : String) :
    d'.findEntry? map key = d.findEntry? map key := by
  unfold findEntry?
  rw [hentries, findIdx?_congr fun entry hmem ↦ ?_]
  rw [hkeys entry hmem]

theorem HangEntries.key_lt_size {trees : List (Tree × Tree)} {entries : List (NodeId × NodeId)}
    {places : List NodeId} (h : HangEntries d trees entries places) :
    ∀ entry ∈ entries, entry.1.index < d.nodes.size := by
  induction entries generalizing trees places with
  | nil => exact List.forall_mem_nil _
  | cons entry entries ih =>
    cases h with
    | cons hkey _ hrest =>
      obtain ⟨node, hnode⟩ := hkey.exists_node
      exact List.forall_mem_cons.2 ⟨lt_size_of_node? hnode, ih hrest⟩

/-- A mapping got other entries, and nothing else changed. -/
theorem spliced_of_entries {trees' : List (Tree × Tree)} {entries' : List (NodeId × NodeId)}
    {idPlaces : List NodeId} (hnode : d.node? map = some ⟨.mapping entries, c⟩)
    (hbelow : HangEntries d trees entries places) (hroot : d''.root = d.root)
    (hkept : ∀ i : NodeId, i.index < d.nodes.size → i ≠ map → d''.node? i = d.node? i)
    (hvalue : Hangs d'' t id idPlaces) (hnode'' : d''.node? map = some ⟨.mapping entries', c⟩)
    (hbelow'' : HangEntries d'' trees' entries' places')
    (htrees : SplicedEntries key t trees trees')
    (hentries : (∃ entry, d.findEntry? map key = some entry ∧
        entries' = entries.set entry.index (entry.key, id)) ∨
      (d.findEntry? map key = none ∧ ∃ k : NodeId, d.nodes.size ≤ k.index ∧
        d''.treeAt? k = some (newScalar key) ∧ entries' = entries ++ [(k, id)])) :
    Spliced d map key t id d'' where
  root := hroot
  kept := hkept
  value := treeAt?_eq_some_iff.2 ⟨_, hvalue⟩
  entries := by
    rw [entries_eq hnode, entries_eq hnode'']
    exact hentries
  others := by
    intro entry hmem exclude
    rw [entries_eq hnode] at hmem
    obtain ⟨hkey, hvalue⟩ :=
      hbelow.treeAt?_eq (hbelow.node?_eq_of_kept hnode hkept) entry hmem
    rw [encode, encode, encode, encode, hkey, hvalue]
    exact ⟨rfl, rfl⟩
  tree := ⟨c, trees, trees', treeAt?_eq_some_iff.2 ⟨_, .mapping hnode hbelow⟩,
    treeAt?_eq_some_iff.2 ⟨_, .mapping hnode'' hbelow''⟩, htrees⟩

/-- A change at an old mapping alone leaves the copy hanging where it is. -/
theorem Grafted.hangs_of_kept (h : Grafted d t d' id) (hmap : map.index < d.nodes.size)
    (hkept : ∀ i : NodeId, i.index < d'.nodes.size → i ≠ map → d''.node? i = d'.node? i) :
    ∃ places, Hangs d'' t id places := by
  obtain ⟨places, hid, -, hnew⟩ := h.own
  refine ⟨places, hid.frame fun i hi ↦ hkept i (hid.lt_size i hi) ?_⟩
  rintro rfl
  exact Nat.not_lt_of_le (hnew _ hi) hmap

/-- The copy takes the place of the value that a key has. -/
theorem Grafted.spliced_replaced (h : Grafted d t d' id)
    (hnode : d.node? map = some ⟨.mapping entries, c⟩)
    (hbelow : HangEntries d trees entries places) {entry : Entry}
    (hfound : d.findEntry? map key = some entry) : Spliced d map key t id
      (d'.setKind map (.mapping (entries.set entry.index (entry.key, id)))) := by
  have hlt := lt_size_of_node? hnode
  obtain ⟨hindex, hentry⟩ := findEntry?_eq_some_iff.1 hfound
  rw [entries_eq hnode] at hindex hentry
  obtain ⟨v, valuePlaces, hfirst⟩ := firstEntry_of_findIdx? hbelow hindex hentry
  obtain ⟨entries', hentries'⟩ : ∃ entries', entries' = entries.set entry.index (entry.key, id) :=
    ⟨_, rfl⟩
  rw [← hentries']
  have hother (i : NodeId) (hne : i ≠ map) :
      (d'.setKind map (.mapping entries')).node? i = d'.node? i := by
    rw [node?_setKind, if_neg hne]
  have hkept (i : NodeId) (hi : i.index < d.nodes.size) (hne : i ≠ map) :
      (d'.setKind map (.mapping entries')).node? i = d.node? i :=
    (hother i hne).trans (h.kept i hi)
  have hsame := hbelow.node?_eq_of_kept hnode hkept
  obtain ⟨idPlaces, hvalue⟩ := h.hangs_of_kept hlt fun i _ ↦ hother i
  have hnode'' : (d'.setKind map (.mapping entries')).node? map =
      some ⟨.mapping entries', c⟩ := by
    rw [node?_setKind, if_pos rfl, h.kept map hlt, hnode]
    rfl
  cases hfirst with
  | @mk _ _ _ entriesBefore entriesAfter _ _ _ hbefore hkey _ hafter hposition hnone htext =>
    rw [List.forall_mem_append, List.forall_mem_append, List.forall_mem_append] at hsame
    obtain ⟨hsameBefore, hsameKey, -, hsameAfter⟩ := hsame
    have hset : entries' = entriesBefore ++ (entry.key, id) :: entriesAfter := by
      rw [hentries', hposition, List.set_append_right _ _ (Nat.le_refl _), Nat.sub_self,
        List.set_cons_zero]
    have hbelow'' := (hbefore.frame hsameBefore).append
      (.cons (hkey.frame hsameKey) hvalue (hafter.frame hsameAfter))
    rw [← hset] at hbelow''
    exact spliced_of_entries hnode hbelow h.root hkept hvalue hnode'' hbelow''
      (splicedEntries_replaced hnone (hasKey_iff.1 htext) t) (.inl ⟨entry, hfound, hentries'⟩)

/-- The copy is hung under a key that the mapping did not have. -/
theorem Grafted.spliced_appended (h : Grafted d t d' id)
    (hnode : d.node? map = some ⟨.mapping entries, c⟩)
    (hbelow : HangEntries d trees entries places) (hnone : d.findEntry? map key = none) :
    Spliced d map key t id ((d'.addScalar key).1.appendEntry map ⟨d'.nodes.size⟩ id) := by
  have hlt := lt_size_of_node? hnode
  have hsize := h.size
  have hnode' : (d'.addScalar key).1.node? map = some ⟨.mapping entries, c⟩ := by
    rw [addScalar, node?_addNode, if_neg (by omega), h.kept map hlt, hnode]
  have hnodes := node?_appendEntry hnode' ⟨d'.nodes.size⟩ id
  have hother (i : NodeId) (hi : i.index < d'.nodes.size) (hne : i ≠ map) :
      ((d'.addScalar key).1.appendEntry map ⟨d'.nodes.size⟩ id).node? i = d'.node? i := by
    rw [hnodes, if_neg hne, addScalar, node?_addNode, if_neg (Nat.ne_of_lt hi)]
  have hkept (i : NodeId) (hi : i.index < d.nodes.size) (hne : i ≠ map) :
      ((d'.addScalar key).1.appendEntry map ⟨d'.nodes.size⟩ id).node? i = d.node? i :=
    (hother i (Nat.lt_of_lt_of_le hi hsize) hne).trans (h.kept i hi)
  have hkey : Hangs ((d'.addScalar key).1.appendEntry map ⟨d'.nodes.size⟩ id) (newScalar key)
      ⟨d'.nodes.size⟩ [⟨d'.nodes.size⟩] := by
    apply Hangs.scalar
    rw [hnodes, if_neg, addScalar, node?_addNode, if_pos rfl]
    rintro rfl
    dsimp only at hlt
    omega
  obtain ⟨idPlaces, hvalue⟩ := h.hangs_of_kept hlt hother
  have hbelow'' :=
    (hbelow.frame (hbelow.node?_eq_of_kept hnode hkept)).append (.cons hkey hvalue .nil)
  have hfirst : ∀ entry ∈ trees, ¬ hasKey key entry = true := by
    rw [findEntry?_eq_none_iff, entries_eq hnode] at hnone
    exact hbelow.scalar?_ne hnone
  exact spliced_of_entries hnode hbelow h.root hkept hvalue (by rw [hnodes, if_pos rfl]) hbelow''
    (splicedEntries_appended hfirst t)
    (.inr ⟨hnone, ⟨d'.nodes.size⟩, hsize, treeAt?_eq_some_iff.2 ⟨_, hkey⟩, rfl⟩)

/-- A copy is hung under a key of a mapping that was there before. -/
theorem Grafted.spliced {u : Tree} (h : Grafted d t d' id) (hmap : d.isMapping map = true)
    (hu : d.treeAt? map = some u) (key : String) :
    Spliced d map key t id (d'.spliceValue map key id) := by
  obtain ⟨idPlaces, hid, -, -⟩ := h.own
  obtain ⟨idNode, hidNode⟩ := hid.exists_node
  obtain ⟨places, hangs⟩ := treeAt?_eq_some_iff.1 hu
  rw [hangs.isMapping_eq] at hmap
  cases hangs with
  | scalar => cases hmap
  | sequence => cases hmap
  | mapping hnode hbelow =>
    have hnode' := (h.kept map (lt_size_of_node? hnode)).trans hnode
    have hfind : d'.findEntry? map key = d.findEntry? map key := by
      refine findEntry?_congr ?_ (fun entry hmem ↦ ?_) key
      · rw [entries_eq hnode', entries_eq hnode]
      · rw [entries_eq hnode] at hmem
        rw [scalar?, scalar?, h.kept entry.1 (hbelow.key_lt_size entry hmem)]
    have hmap' : d'.isMapping map = true := by rw [isMapping, hnode']
    rcases spliceValue_cases key hmap' hidNode with ⟨entry, hfound, heq⟩ | ⟨hnone, heq⟩
    · rw [heq, entries_eq hnode']
      exact h.spliced_replaced hnode hbelow (hfind ▸ hfound)
    · rw [heq]
      exact h.spliced_appended hnode hbelow (hfind ▸ hnone)

/-- Every node of a document has a tree. -/
def HasTrees (d : Document) : Prop :=
  ∀ id : NodeId, id.index < d.nodes.size → ∃ t, d.treeAt? id = some t

theorem hasTrees_of_forall_lt (h : ∀ i < d.nodes.size, (d.treeAt? ⟨i⟩).isSome = true) :
    d.HasTrees :=
  fun id hid ↦ Option.isSome_iff_exists.1 (h id.index hid)

theorem Spliced.treeAt?_eq {d₁ d₂ : Document} {id₁ id₂ : NodeId}
    (h₁ : Spliced d map key t id₁ d₁) (h₂ : Spliced d map key t id₂ d₂) :
    d₁.treeAt? map = d₂.treeAt? map := by
  obtain ⟨c₁, trees₁, trees₁', hold₁, hnew₁, hspliced₁⟩ := h₁.tree
  obtain ⟨c₂, trees₂, trees₂', hold₂, hnew₂, hspliced₂⟩ := h₂.tree
  obtain ⟨rfl, rfl⟩ := Tree.mapping.inj (Option.some.inj (hold₁.symm.trans hold₂))
  obtain rfl := Except.ok.inj (hspliced₁.updateEntries.symm.trans hspliced₂.updateEntries)
  rw [hnew₁, hnew₂]

/-- A node of another document is copied into nodes of its own, node by node or as a tree that is
added as a whole. Whatever mapping the copy is hung in and under whatever key, only this entry
changes: in its place if the key was there, as the last one if not. -/
theorem graft_copies (hd : d.HasTrees) (hsource : source.HasTrees) {n : NodeId}
    (hn : n.index < source.nodes.size) :
    ∃ t, source.treeAt? n = some t ∧
      ∃ d' id, d.graft source n = some (d', id) ∧
        Grafted d t d' id ∧ Grafted d t (d.addTree t).1 (d.addTree t).2 ∧
        ∀ map key, d.isMapping map = true →
          Spliced d map key t id (d'.spliceValue map key id) ∧
          Spliced d map key t (d.addTree t).2
            ((d.addTree t).1.spliceValue map key (d.addTree t).2) ∧
          (d'.spliceValue map key id).treeAt? map =
            ((d.addTree t).1.spliceValue map key (d.addTree t).2).treeAt? map := by
  obtain ⟨t, ht⟩ := hsource n hn
  obtain ⟨d', id, places, hgraft, hhangs, hgrown⟩ :=
    copies_graftFrom source source.nodes.size (d := d) ht
  have hgrafted := hhangs.grafted hgrown
  have hadded := (hangs_addTree d t).grafted (.addTree d t)
  refine ⟨t, ht, d', id, hgraft, hgrafted, hadded, fun map key hmap ↦ ?_⟩
  obtain ⟨entries, c, hnode⟩ := node?_of_isMapping hmap
  obtain ⟨u, hu⟩ := hd map (lt_size_of_node? hnode)
  have hspliced := hgrafted.spliced hmap hu key
  have hspliced' := hadded.spliced hmap hu key
  exact ⟨hspliced, hspliced', hspliced.treeAt?_eq hspliced'⟩

end

/-- A document with one setting. -/
def editorOnly : Document :=
  ⟨#[⟨.mapping [(⟨1⟩, ⟨2⟩)], {}⟩, ⟨.scalar "editor" .plain, {}⟩, ⟨.scalar "vi" .plain, {}⟩], ⟨0⟩⟩

/-- A document with one alias, above which stands a comment. -/
def aliasOnly : Document :=
  ⟨#[⟨.mapping [(⟨1⟩, ⟨2⟩)], {}⟩, ⟨.scalar "co" .plain, { head := ["# checkout"] }⟩,
    ⟨.scalar "mr checkout" .plain, {}⟩], ⟨0⟩⟩

/-- The aliases come last, with their comment. -/
theorem graft_copies_aliases :
    editorOnly.HasTrees ∧ aliasOnly.HasTrees ∧ ∃ d' id t,
      editorOnly.graft aliasOnly aliasOnly.root = some (d', id) ∧ Grafted editorOnly t d' id ∧
      Spliced editorOnly ⟨0⟩ "aliases" t id (d'.spliceValue ⟨0⟩ "aliases" id) ∧
      (d'.spliceValue ⟨0⟩ "aliases" id).encode ⟨0⟩ [] =
        "editor: vi\naliases:\n    # checkout\n    co: mr checkout\n" := by
  have hd : editorOnly.HasTrees := hasTrees_of_forall_lt (by decide)
  have hsource : aliasOnly.HasTrees := hasTrees_of_forall_lt (by decide)
  obtain ⟨t, -, d', id, hgraft, hgrafted, -, hspliced⟩ :=
    graft_copies hd hsource (n := aliasOnly.root) (by decide)
  refine ⟨hd, hsource, d', id, t, hgraft, hgrafted, (hspliced ⟨0⟩ "aliases" rfl).1, ?_⟩
  have hcopy : editorOnly.graft aliasOnly aliasOnly.root = some (_, _) := rfl
  obtain ⟨rfl, rfl⟩ := Prod.mk.inj (Option.some.inj (hgraft.symm.trans hcopy))
  rfl

end LayeredConfig.Document
