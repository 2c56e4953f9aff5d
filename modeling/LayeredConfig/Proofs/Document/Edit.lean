import LayeredConfig.Document.Edit

/-!
# What an edit does to the table

An edit changes the kind of one node and may add nodes behind all others. For every edit it is
said which node that is and what it becomes, so that later arguments need not look into the edits
again.
-/

namespace LayeredConfig.Document

variable {d d' : Document} {map id : NodeId} {key text : String}

/-! ## Single nodes -/

theorem index_inj {i j : NodeId} : i.index = j.index ↔ i = j := by
  cases i
  cases j
  simp

theorem node?_modify (d : Document) (id i : NodeId) (f : Node → Node) :
    (d.modify id f).node? i = if i = id then (d.node? i).map f else d.node? i := by
  unfold node? modify
  rw [Array.getElem?_modify]
  simp only [index_inj, eq_comm]

@[simp] theorem size_modify (d : Document) (id : NodeId) (f : Node → Node) :
    (d.modify id f).nodes.size = d.nodes.size :=
  Array.size_modify

@[simp] theorem root_modify (d : Document) (id : NodeId) (f : Node → Node) :
    (d.modify id f).root = d.root := rfl

theorem node?_setKind (d : Document) (id i : NodeId) (kind : NodeKind) :
    (d.setKind id kind).node? i =
      if i = id then (d.node? i).map fun node ↦ ⟨kind, node.comments⟩ else d.node? i :=
  node?_modify d id i _

theorem node?_addNode (d : Document) (kind : NodeKind) (i : NodeId) :
    (d.addNode kind).1.node? i =
      if i.index = d.nodes.size then some ⟨kind, {}⟩ else d.node? i :=
  Array.getElem?_push

@[simp] theorem size_addNode (d : Document) (kind : NodeKind) :
    (d.addNode kind).1.nodes.size = d.nodes.size + 1 :=
  Array.size_push _

theorem lt_size_of_node? {node : Node} (h : d.node? id = some node) : id.index < d.nodes.size :=
  (Array.getElem?_eq_some_iff.1 h).1

theorem node?_of_isMapping (h : d.isMapping map = true) :
    ∃ entries c, d.node? map = some ⟨.mapping entries, c⟩ := by
  unfold isMapping at h
  split at h
  · exact ⟨_, _, ‹_›⟩
  · cases h

theorem entries_eq {entries : List (NodeId × NodeId)} {c : Comments}
    (h : d.node? map = some ⟨.mapping entries, c⟩) : d.entries map = entries := by
  rw [Document.entries, h]

theorem node?_of_mem_entries {entry : NodeId × NodeId} (h : entry ∈ d.entries map) :
    ∃ c, d.node? map = some ⟨.mapping (d.entries map), c⟩ := by
  unfold Document.entries at h ⊢
  split at h
  · rename_i entries c hnode
    exact ⟨c, hnode⟩
  · cases h

/-! ## Entries -/

/-- An entry that was found is the first one with its key. -/
theorem findEntry?_eq_some_iff {entry : Entry} :
    d.findEntry? map key = some entry ↔
      (d.entries map).findIdx? (fun entry ↦ d.scalar? entry.1 = some key) = some entry.index ∧
        (d.entries map)[entry.index]? = some (entry.key, entry.value) := by
  unfold findEntry?
  constructor
  · intro h
    obtain ⟨index, hindex, h⟩ := Option.bind_eq_some_iff.1 h
    obtain ⟨⟨keyId, valueId⟩, hentry, h⟩ := Option.bind_eq_some_iff.1 h
    obtain rfl := Option.some.inj h
    exact ⟨hindex, hentry⟩
  · rintro ⟨hindex, hentry⟩
    rw [hindex]
    change ((d.entries map)[entry.index]?).bind _ = _
    rw [hentry]
    rfl

theorem mem_entries_of_found {entry : Entry} (h : d.findEntry? map key = some entry) :
    (entry.key, entry.value) ∈ d.entries map :=
  List.mem_of_getElem? (findEntry?_eq_some_iff.1 h).2

theorem isMapping_of_found {entry : Entry} (h : d.findEntry? map key = some entry) :
    d.isMapping map = true := by
  obtain ⟨c, hnode⟩ := node?_of_mem_entries (mem_entries_of_found h)
  rw [isMapping, hnode]

theorem findEntry?_eq_none_iff :
    d.findEntry? map key = none ↔ ∀ entry ∈ d.entries map, d.scalar? entry.1 ≠ some key := by
  constructor
  · intro h entry hmem hkey
    cases hindex : (d.entries map).findIdx? (fun entry ↦ d.scalar? entry.1 = some key) with
    | none =>
      have hall := List.findIdx?_eq_none_iff.1 hindex entry hmem
      exact absurd hkey (of_decide_eq_false hall)
    | some index =>
      obtain ⟨hlt, -⟩ := List.findIdx?_eq_some_iff_getElem.1 hindex
      have hfound : d.findEntry? map key =
          some ⟨(d.entries map)[index].1, (d.entries map)[index].2, index⟩ :=
        findEntry?_eq_some_iff.2 ⟨hindex, List.getElem?_eq_getElem hlt⟩
      rw [h] at hfound
      cases hfound
  · intro h
    unfold findEntry?
    rw [List.findIdx?_eq_none_iff.2 fun entry hmem ↦ decide_eq_false (h entry hmem)]
    rfl

/-! ## Edits -/

theorem node?_appendEntry {entries : List (NodeId × NodeId)} {c : Comments}
    (h : d.node? map = some ⟨.mapping entries, c⟩) (k v i : NodeId) :
    (d.appendEntry map k v).node? i =
      if i = map then some ⟨.mapping (entries ++ [(k, v)]), c⟩ else d.node? i := by
  rw [appendEntry, node?_modify]
  split
  · rename_i heq
    rw [heq, h]
    rfl
  · rfl

/-- A new entry at the end of a mapping: its key is a scalar, its value any new node. -/
def addEntry (d : Document) (map : NodeId) (key : String) (kind : NodeKind) : Document :=
  ((d.addScalar key).1.addNode kind).1.appendEntry map ⟨d.nodes.size⟩ ⟨d.nodes.size + 1⟩

@[simp] theorem size_addEntry (d : Document) (map : NodeId) (key : String) (kind : NodeKind) :
    (d.addEntry map key kind).nodes.size = d.nodes.size + 2 := by
  simp [addEntry, appendEntry, addScalar]

/-- The new key and the new value stand behind all other nodes. -/
theorem node?_addEntry {entries : List (NodeId × NodeId)} {c : Comments}
    (h : d.node? map = some ⟨.mapping entries, c⟩) (key : String) (kind : NodeKind) (i : NodeId) :
    (d.addEntry map key kind).node? i =
      if i.index = d.nodes.size + 1 then some ⟨kind, {}⟩
      else if i.index = d.nodes.size then
        some ⟨.scalar key (Scalar.styleFor key.toList .plain), {}⟩
      else if i = map then
        some ⟨.mapping (entries ++ [(⟨d.nodes.size⟩, ⟨d.nodes.size + 1⟩)]), c⟩
      else d.node? i := by
  have hlt := lt_size_of_node? h
  rw [addEntry, appendEntry, node?_modify, node?_addNode, addScalar, node?_addNode, size_addNode]
  by_cases hmap : i = map
  · subst hmap
    rw [if_pos rfl, if_neg (by omega), if_neg (by omega), if_neg (by omega), if_neg (by omega),
      if_pos rfl, h]
    rfl
  · rw [if_neg hmap, if_neg hmap]

/-- A text is overwritten in place or gets a new entry. -/
theorem setText_cases {entry : Entry} (h : d.setText map key text = .ok (d', entry)) :
    d.isMapping map = true ∧
      ((d.findEntry? map key = some entry ∧ ∃ old style c,
          d.node? entry.value = some ⟨.scalar old style, c⟩ ∧
          d' = d.setKind entry.value (.scalar text (Scalar.styleFor text.toList style))) ∨
        (d.findEntry? map key = none ∧
          d' = d.addEntry map key (.scalar text (Scalar.styleFor text.toList .plain)))) := by
  unfold setText at h
  split at h
  · cases h
  rename_i hmap
  refine ⟨by simpa using hmap, ?_⟩
  split at h
  · rename_i found hfound
    split at h
    · rename_i old style c hnode
      obtain ⟨rfl, rfl⟩ := Prod.mk.inj (Except.ok.inj h)
      exact .inl ⟨hfound, old, style, c, hnode, rfl⟩
    · cases h
  · rename_i hnone
    obtain ⟨rfl, -⟩ := Prod.mk.inj (Except.ok.inj h)
    refine .inr ⟨hnone, ?_⟩
    simp [addEntry, addScalar, addNode]

theorem setText_error {e : ShapeError} (h : d.setText map key text = .error e) :
    (d.isMapping map = false ∧ e = ⟨key, .mapping⟩) ∨
      ∃ entry, d.findEntry? map key = some entry ∧ d.scalar? entry.value = none ∧
        e = ⟨key, .scalar⟩ := by
  unfold setText at h
  split at h
  · rename_i hmap
    exact .inl ⟨by simpa using hmap, (Except.error.inj h).symm⟩
  split at h
  · rename_i found hfound
    split at h
    · cases h
    · rename_i hnot
      refine .inr ⟨found, hfound, ?_, (Except.error.inj h).symm⟩
      unfold scalar?
      split
      · rename_i text c hnode
        exact absurd hnode (hnot _ _ c)
      · rfl
  · cases h

theorem removeEntry_cases {entry : Entry} (h : d.removeEntry map key = some (d', entry)) :
    d.findEntry? map key = some entry ∧
      d' = d.setKind map (.mapping ((d.entries map).eraseIdx entry.index)) := by
  obtain ⟨found, hfound, h⟩ := Option.bind_eq_some_iff.1 h
  obtain ⟨rfl, rfl⟩ := Prod.mk.inj (Option.some.inj h)
  exact ⟨hfound, rfl⟩

/-- A mapping is found, made of an empty plain scalar, or added. -/
theorem ensureMapping_cases {value : NodeId} (h : d.ensureMapping map key = .ok (d', value)) :
    d.isMapping map = true ∧
      ((∃ entry, d.findEntry? map key = some entry ∧ value = entry.value ∧
          ((d.isMapping value = true ∧ d' = d) ∨
            (∃ c, d.node? value = some ⟨.scalar "" .plain, c⟩ ∧
              d' = d.setKind value (.mapping [])))) ∨
        (d.findEntry? map key = none ∧ value = ⟨d.nodes.size + 1⟩ ∧
          d' = d.addEntry map key (.mapping []))) := by
  unfold ensureMapping at h
  split at h
  · cases h
  rename_i hmap
  refine ⟨by simpa using hmap, ?_⟩
  split at h
  · rename_i found hfound
    split at h
    · rename_i entries c hnode
      obtain ⟨rfl, rfl⟩ := Prod.mk.inj (Except.ok.inj h)
      refine .inl ⟨found, hfound, rfl, .inl ⟨?_, rfl⟩⟩
      rw [isMapping, hnode]
    · rename_i c hnode
      obtain ⟨rfl, rfl⟩ := Prod.mk.inj (Except.ok.inj h)
      exact .inl ⟨found, hfound, rfl, .inr ⟨c, hnode, rfl⟩⟩
    · cases h
  · rename_i hnone
    obtain ⟨rfl, rfl⟩ := Prod.mk.inj (Except.ok.inj h)
    refine .inr ⟨hnone, ?_, ?_⟩
    · simp
    · simp [addEntry, addScalar, addNode]

theorem ensureMapping_error {e : ShapeError} (h : d.ensureMapping map key = .error e) :
    (d.isMapping map = false ∧ e = ⟨key, .mapping⟩) ∨
      ∃ entry, d.findEntry? map key = some entry ∧ d.isMapping entry.value = false ∧
        (∀ c, d.node? entry.value ≠ some ⟨.scalar "" .plain, c⟩) ∧ e = ⟨key, .mapping⟩ := by
  unfold ensureMapping at h
  split at h
  · rename_i hmap
    exact .inl ⟨by simpa using hmap, (Except.error.inj h).symm⟩
  split at h
  · rename_i found hfound
    split at h
    · cases h
    · cases h
    · rename_i hnot hempty
      refine .inr ⟨found, hfound, ?_, hempty, (Except.error.inj h).symm⟩
      unfold isMapping
      split
      · rename_i entries c hnode
        exact absurd hnode (hnot entries c)
      · rfl
  · cases h

/-! ## Empty mappings -/

/-- An empty mapping has no entry to find. -/
theorem findEntry?_of_empty {c : Comments} (h : d.node? map = some ⟨.mapping [], c⟩) (key : String) :
    d.findEntry? map key = none := by
  rw [findEntry?_eq_none_iff, entries_eq h]
  exact List.forall_mem_nil _

theorem isMapping_of_empty {c : Comments} (h : d.node? map = some ⟨.mapping [], c⟩) :
    d.isMapping map = true := by
  rw [isMapping, h]

theorem setText_of_empty {c : Comments} (h : d.node? map = some ⟨.mapping [], c⟩)
    (key text : String) (e : ShapeError) : d.setText map key text ≠ .error e := by
  intro herror
  rcases setText_error herror with ⟨hmap, -⟩ | ⟨entry, hfound, -⟩
  · rw [isMapping_of_empty h] at hmap
    cases hmap
  · rw [findEntry?_of_empty h key] at hfound
    cases hfound

theorem ensureMapping_of_empty {c : Comments} (h : d.node? map = some ⟨.mapping [], c⟩)
    (key : String) (e : ShapeError) : d.ensureMapping map key ≠ .error e := by
  intro herror
  rcases ensureMapping_error herror with ⟨hmap, -⟩ | ⟨entry, hfound, -⟩
  · rw [isMapping_of_empty h] at hmap
    cases hmap
  · rw [findEntry?_of_empty h key] at hfound
    cases hfound

/-- A mapping that was opened was there before or is empty. -/
theorem eq_or_empty_of_ensureMapping {value : NodeId}
    (h : d.ensureMapping map key = .ok (d', value)) :
    d' = d ∧ (∃ entry, d.findEntry? map key = some entry) ∨
      ∃ c, d'.node? value = some ⟨.mapping [], c⟩ := by
  obtain ⟨hmap, ⟨entry, hfound, rfl, ⟨-, rfl⟩ | ⟨c, hnode, rfl⟩⟩ | ⟨-, rfl, rfl⟩⟩ :=
    ensureMapping_cases h
  · exact .inl ⟨rfl, entry, hfound⟩
  · refine .inr ⟨c, ?_⟩
    rw [node?_setKind, if_pos rfl, hnode]
    rfl
  · obtain ⟨entries, c, hnode⟩ := node?_of_isMapping hmap
    refine .inr ⟨{}, ?_⟩
    rw [node?_addEntry hnode, if_pos rfl]

/-! ## Grafting -/

/-- A node is hung in the place of the old value or in a new entry. -/
theorem spliceValue_cases {value : NodeId} {node : Node} (key : String)
    (hmap : d.isMapping map = true) (hvalue : d.node? value = some node) :
    (∃ entry, d.findEntry? map key = some entry ∧ d.spliceValue map key value =
        d.setKind map (.mapping ((d.entries map).set entry.index (entry.key, value)))) ∨
      (d.findEntry? map key = none ∧ d.spliceValue map key value =
        (d.addScalar key).1.appendEntry map ⟨d.nodes.size⟩ value) := by
  unfold spliceValue
  rw [if_neg (by simp [hmap, hvalue])]
  split
  · rename_i entry hfound
    exact .inl ⟨entry, hfound, rfl⟩
  · rename_i hnone
    exact .inr ⟨hnone, rfl⟩

end LayeredConfig.Document
