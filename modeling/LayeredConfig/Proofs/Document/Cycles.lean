import Mathlib
import LayeredConfig.Proofs.Document.References
import LayeredConfig.Proofs.Document.RoundTrip

/-!
# Cycles

A call may be given any ids, those of another document included. Whatever is called, every
reference leads to a node of the table. A node comes to contain itself in one way only: a node is
hung in a mapping that hangs below it. As long as this does not happen every node has a tree, and a
node that contains itself has none.
-/

namespace LayeredConfig.Document

open Relation

/-! ## Calls -/

/-- A call that may change a document. -/
inductive Call where
  | addScalar (text : String)
  | addMapping
  | addSequence
  | setHeadComment (id : NodeId) (lines : List String)
  | edit (edit : Edit)
  | spliceValue (map : NodeId) (key : String) (value : NodeId)

def call (d : Document) : Call → Document
  | .addScalar text => (d.addScalar text).1
  | .addMapping => d.addMapping.1
  | .addSequence => d.addSequence.1
  | .setHeadComment id lines => d.setHeadComment id lines
  | .edit edit => d.edit edit
  | .spliceValue map key value => d.spliceValue map key value

def callAll (d : Document) (calls : List Call) : Document :=
  calls.foldl call d

/-! ## References -/

/-- One node is a key, a value or an item of another one. -/
def Refers (d : Document) (id child : NodeId) : Prop :=
  child ∈ (d.kindAt id).children

/-- No node is reachable from itself. -/
def Acyclic (d : Document) : Prop :=
  ∀ id, ¬ TransGen d.Refers id id

/-- Every reference leads to a node of the table. -/
structure InTable (d : Document) : Prop where
  root : d.root.index < d.nodes.size
  child : ∀ id child, d.Refers id child → child.index < d.nodes.size

/-- The call hangs a node in a mapping that can be reached from it. -/
def ClosesCycle (d : Document) : Call → Prop
  | .spliceValue map _ value =>
    d.isMapping map = true ∧ (d.node? value).isSome = true ∧ ReflTransGen d.Refers value map
  | _ => False

section

variable {α : Type} {r r' : α → α → Prop} {a b x y : α}

/-! ## Paths with new links -/

/-- A link to a place where nothing goes on is no part of a longer path. -/
theorem transGen_of_leaves (h : ∀ a b, r' a b → r a b ∨ ∀ c, ¬ r' b c) (hab : TransGen r' a b)
    (hb : ∃ c, r' b c) : TransGen r a b := by
  induction hab with
  | single hstep =>
    obtain ⟨c, hc⟩ := hb
    exact .single ((h _ _ hstep).resolve_right fun hleaf ↦ hleaf c hc)
  | tail _ hstep ih =>
    obtain ⟨c, hc⟩ := hb
    exact .tail (ih ⟨_, hstep⟩) ((h _ _ hstep).resolve_right fun hleaf ↦ hleaf c hc)

/-- With one more link a path is an old one, or it goes over this link. -/
theorem transGen_or_link (h : TransGen (fun a b ↦ r a b ∨ (a = x ∧ b = y)) a b) :
    TransGen r a b ∨ (ReflTransGen r a x ∧ ReflTransGen r y b) := by
  induction h with
  | single hstep =>
    rcases hstep with hold | ⟨rfl, rfl⟩
    · exact .inl (.single hold)
    · exact .inr ⟨.refl, .refl⟩
  | tail _ hstep ih =>
    rcases hstep with hold | ⟨rfl, rfl⟩
    · exact ih.imp (·.tail hold) fun ⟨hto, hfrom⟩ ↦ ⟨hto, hfrom.tail hold⟩
    · exact .inr ⟨ih.elim TransGen.to_reflTransGen And.left, .refl⟩

/-- What happens at the end of a path does not concern the path. -/
theorem reflTransGen_of_ne (hkeep : ∀ b c, b ≠ x → r b c → r' b c) (h : ReflTransGen r a x) :
    ReflTransGen r' a x := by
  induction h using ReflTransGen.head_induction_on with
  | refl => exact .refl
  | @head b c hstep _ ih =>
    by_cases hb : b = x
    · rw [hb]
    · exact .head (hkeep b c hb hstep) ih

end

section

variable {d d' : Document} {id child map value : NodeId} {key text : String} {kind : NodeKind}
  {link : NodeId → NodeId → Prop}

/-! ## What a call does to the references -/

/-- Some references may be gone. A new one is one of the links or leads to a node that refers to
nothing. -/
structure Linked (d d' : Document) (link : NodeId → NodeId → Prop) : Prop where
  root : d'.root = d.root
  size : d.nodes.size ≤ d'.nodes.size
  refers : ∀ id child, d'.Refers id child → (d.Refers id child ∨ link id child) ∨
    (child.index < d'.nodes.size ∧ ∀ below, ¬ d'.Refers child below)

theorem Linked.refl (d : Document) : Linked d d fun _ _ ↦ False :=
  ⟨rfl, Nat.le_refl _, fun _ _ h ↦ .inl (.inl h)⟩

/-- One node refers to less than before. -/
theorem linked_setKind {node : Node} (h : d.node? id = some node)
    (hsub : ∀ child ∈ kind.children, child ∈ node.kind.children) :
    Linked d (d.setKind id kind) fun _ _ ↦ False := by
  refine ⟨root_modify _ _ _, Nat.le_of_eq (size_modify _ _ _).symm, fun i child hmem ↦ ?_⟩
  rw [Refers, kindAt_setKind h] at hmem
  refine .inl (.inl ?_)
  split at hmem
  · rename_i heq
    rw [heq, Refers, kindAt_eq h]
    exact hsub child hmem
  · exact hmem

theorem linked_addNode (hkind : kind.children = []) :
    Linked d (d.addNode kind).1 fun _ _ ↦ False := by
  refine ⟨rfl, by rw [size_addNode]; exact Nat.le_succ _, fun i child hmem ↦ ?_⟩
  rw [Refers, kindAt_addNode] at hmem
  split at hmem
  · rw [hkind] at hmem
    cases hmem
  · exact .inl (.inl hmem)

theorem linked_setHeadComment (d : Document) (id : NodeId) (lines : List String) :
    Linked d (d.setHeadComment id lines) fun _ _ ↦ False := by
  refine ⟨rfl, Nat.le_of_eq (size_modify _ _ _).symm, fun i child hmem ↦ .inl (.inl ?_)⟩
  have hkind : (d.setHeadComment id lines).kindAt i = d.kindAt i := by
    rw [kindAt, setHeadComment, node?_modify, kindAt]
    by_cases hi : i = id
    · rw [if_pos hi]
      cases d.node? i <;> rfl
    · rw [if_neg hi]
  rwa [Refers, hkind] at hmem

theorem kindAt_hung {entries : List (NodeId × NodeId)} {c : Comments}
    (hmap : d.node? map = some ⟨.mapping entries, c⟩) (key : String) (value i : NodeId) :
    ((d.addScalar key).1.appendEntry map ⟨d.nodes.size⟩ value).kindAt i =
      if i = map then .mapping (entries ++ [(⟨d.nodes.size⟩, value)])
      else if i.index = d.nodes.size then .scalar key (Scalar.styleFor key.toList .plain)
      else d.kindAt i := by
  have hlt := lt_size_of_node? hmap
  have hmap' : (d.addScalar key).1.node? map = some ⟨.mapping entries, c⟩ := by
    rw [addScalar, node?_addNode, if_neg (Nat.ne_of_lt hlt), hmap]
  rw [kindAt_appendEntry hmap', addScalar, kindAt_addNode]

/-- A node is hung in a mapping under a new key. -/
theorem linked_appendEntry {entries : List (NodeId × NodeId)} {c : Comments}
    (hmap : d.node? map = some ⟨.mapping entries, c⟩) (key : String) (value : NodeId) :
    Linked d ((d.addScalar key).1.appendEntry map ⟨d.nodes.size⟩ value)
      fun id child ↦ id = map ∧ child = value := by
  have hlt := lt_size_of_node? hmap
  have hsize : ((d.addScalar key).1.appendEntry map ⟨d.nodes.size⟩ value).nodes.size =
      d.nodes.size + 1 := by
    rw [appendEntry, size_modify, addScalar, size_addNode]
  refine ⟨rfl, by rw [hsize]; exact Nat.le_succ _, fun i child hmem ↦ ?_⟩
  rw [Refers, kindAt_hung hmap] at hmem
  split at hmem
  · rename_i heq
    subst heq
    rw [(children_append entries _ _).mem_iff, List.mem_cons, List.mem_cons] at hmem
    rcases hmem with rfl | rfl | hold
    · refine .inr ⟨by rw [hsize]; exact Nat.lt_succ_self _, fun below hbelow ↦ ?_⟩
      rw [Refers, kindAt_hung hmap, if_neg, if_pos rfl] at hbelow
      · cases hbelow
      · rintro rfl
        exact Nat.lt_irrefl _ hlt
    · exact .inl (.inr ⟨rfl, rfl⟩)
    · exact .inl (.inl (by rwa [Refers, kindAt_eq hmap]))
  · split at hmem
    · cases hmem
    · exact .inl (.inl hmem)

theorem linked_addEntry (hmap : d.isMapping map = true) (key : String)
    (hkind : kind.children = []) : Linked d (d.addEntry map key kind) fun _ _ ↦ False := by
  obtain ⟨entries, c, hnode⟩ := node?_of_isMapping hmap
  have hlt := lt_size_of_node? hnode
  have hsize := size_addEntry d map key kind
  have hnone (i : NodeId) (hi : d.nodes.size ≤ i.index) (child : NodeId) :
      ¬ (d.addEntry map key kind).Refers i child := by
    have hmap : i ≠ map := by
      rintro rfl
      exact absurd hlt (Nat.not_lt_of_le hi)
    intro hmem
    rw [Refers, kindAt, node?_addEntry hnode] at hmem
    by_cases hvalue : i.index = d.nodes.size + 1
    · rw [if_pos hvalue, hkind] at hmem
      cases hmem
    · rw [if_neg hvalue] at hmem
      by_cases hkey : i.index = d.nodes.size
      · rw [if_pos hkey] at hmem
        cases hmem
      · have hout : d.node? i = none := Array.getElem?_eq_none hi
        rw [if_neg hkey, if_neg hmap, hout] at hmem
        cases hmem
  refine ⟨rfl, by rw [hsize]; exact Nat.le_add_right _ _, fun i child hmem ↦ ?_⟩
  by_cases hi : d.nodes.size ≤ i.index
  · exact absurd hmem (hnone i hi child)
  · rw [Refers, kindAt, node?_addEntry hnode, if_neg (by omega), if_neg (by omega)] at hmem
    by_cases heq : i = map
    · subst heq
      rw [if_pos rfl, (children_append entries _ _).mem_iff, List.mem_cons, List.mem_cons] at hmem
      rcases hmem with rfl | rfl | hold
      · have hkey : d.nodes.size < (d.addEntry i key kind).nodes.size := by omega
        exact .inr ⟨hkey, hnone _ (Nat.le_refl _)⟩
      · have hvalue : d.nodes.size + 1 < (d.addEntry i key kind).nodes.size := by omega
        exact .inr ⟨hvalue, hnone _ (Nat.le_succ _)⟩
      · exact .inl (.inl (by rwa [Refers, kindAt_eq hnode]))
    · rw [if_neg heq] at hmem
      exact .inl (.inl hmem)

theorem linked_edit (d : Document) (e : Edit) : Linked d (d.edit e) fun _ _ ↦ False := by
  cases e with
  | setText map key text =>
    simp only [edit]
    split
    · rename_i entry hset
      obtain ⟨hmap, ⟨-, old, style, c, hnode, rfl⟩ | ⟨-, rfl⟩⟩ := setText_cases hset
      · exact linked_setKind hnode (List.forall_mem_nil _)
      · exact linked_addEntry hmap key rfl
    · exact .refl d
  | removeEntry map key =>
    simp only [edit]
    split
    · rename_i entry hremove
      obtain ⟨hfound, rfl⟩ := removeEntry_cases hremove
      obtain ⟨c, hnode⟩ := node?_of_mem_entries (mem_entries_of_found hfound)
      have hentries := List.eraseIdx_sublist (d.entries map) entry.index
      have hchildren := (hentries.map Prod.fst).append (hentries.map Prod.snd)
      exact linked_setKind hnode fun child hmem ↦ hchildren.subset hmem
    · exact .refl d
  | ensureMapping map key =>
    simp only [edit]
    split
    · rename_i value hensure
      obtain ⟨hmap, ⟨entry, -, rfl, ⟨-, rfl⟩ | ⟨c, hnode, rfl⟩⟩ | ⟨-, -, rfl⟩⟩ :=
        ensureMapping_cases hensure
      · exact .refl _
      · exact linked_setKind hnode (List.forall_mem_nil _)
      · exact linked_addEntry hmap key rfl
    · exact .refl d

theorem linked_spliceValue (hmap : d.isMapping map = true)
    (hvalue : (d.node? value).isSome = true) (key : String) :
    Linked d (d.spliceValue map key value) fun id child ↦ id = map ∧ child = value := by
  obtain ⟨node, hnode⟩ := Option.isSome_iff_exists.1 hvalue
  rcases spliceValue_cases key hmap hnode with ⟨entry, hfound, heq⟩ | ⟨-, heq⟩
  · obtain ⟨c, hparent⟩ := node?_of_mem_entries (mem_entries_of_found hfound)
    rw [heq]
    refine ⟨root_modify _ _ _, Nat.le_of_eq (size_modify _ _ _).symm, fun i child hmem ↦ .inl ?_⟩
    rw [Refers, kindAt_setKind hparent] at hmem
    split at hmem
    · rename_i hi
      subst hi
      have hperm := children_set (findEntry?_eq_some_iff.1 hfound).2 value
      rcases List.mem_cons.1 (hperm.mem_iff.1 (List.mem_cons_of_mem _ hmem)) with rfl | hold
      · exact .inr ⟨rfl, rfl⟩
      · exact .inl (by rwa [Refers, kindAt_eq hparent])
    · exact .inl hmem
  · obtain ⟨entries, c, hparent⟩ := node?_of_isMapping hmap
    rw [heq]
    exact linked_appendEntry hparent key value

/-- The link that a call makes between nodes that were there before. -/
def Call.Links (d : Document) : Call → NodeId → NodeId → Prop
  | .spliceValue map _ value => fun id child ↦
    (d.isMapping map = true ∧ (d.node? value).isSome = true) ∧ id = map ∧ child = value
  | _ => fun _ _ ↦ False

theorem linked_call (d : Document) (c : Call) : Linked d (d.call c) (c.Links d) := by
  cases c with
  | addScalar text => exact linked_addNode rfl
  | addMapping => exact linked_addNode rfl
  | addSequence => exact linked_addNode rfl
  | setHeadComment id lines => exact linked_setHeadComment d id lines
  | edit e => exact linked_edit d e
  | spliceValue map key value =>
    by_cases h : d.isMapping map = true ∧ (d.node? value).isSome = true
    · obtain ⟨hroot, hsize, hrefers⟩ := linked_spliceValue h.1 h.2 key
      exact ⟨hroot, hsize, fun id child hmem ↦ (hrefers id child hmem).imp_left
        (Or.imp_right fun hlink ↦ ⟨h, hlink⟩)⟩
    · have hsame : d.call (.spliceValue map key value) = d := by
        rw [call, spliceValue, if_pos]
        rw [not_and_or, Bool.not_eq_true, Bool.not_eq_true] at h
        rcases h with hmap | hvalue
        · rw [hmap]
          rfl
        · rw [Option.isSome_eq_false_iff] at hvalue
          rw [hvalue, Bool.or_true]
      rw [hsame]
      obtain ⟨hroot, hsize, hrefers⟩ := Linked.refl d
      exact ⟨hroot, hsize, fun id child hmem ↦ (hrefers id child hmem).imp_left
        (Or.imp_right False.elim)⟩

/-! ## References stay inside the table -/

theorem InTable.call (h : d.InTable) (c : Call) : (d.call c).InTable := by
  obtain ⟨hroot, hsize, hrefers⟩ := linked_call d c
  refine ⟨?_, fun id child hmem ↦ ?_⟩
  · rw [hroot]
    exact Nat.lt_of_lt_of_le h.root hsize
  · rcases hrefers id child hmem with (hold | hlink) | ⟨hlt, -⟩
    · exact Nat.lt_of_lt_of_le (h.child id child hold) hsize
    · cases c with
      | spliceValue map key value =>
        obtain ⟨⟨-, hvalue⟩, -, rfl⟩ := hlink
        obtain ⟨node, hnode⟩ := Option.isSome_iff_exists.1 hvalue
        exact Nat.lt_of_lt_of_le (lt_size_of_node? hnode) hsize
      | _ => cases hlink
    · exact hlt

theorem InTable.callAll (h : d.InTable) (calls : List Call) : (d.callAll calls).InTable := by
  induction calls generalizing d with
  | nil => exact h
  | cons c calls ih => exact ih (h.call c)

theorem Sound.inTable (h : d.Sound) : d.InTable :=
  ⟨h.root, fun id child hmem ↦ (h.behind id child hmem).2⟩

theorem Sound.acyclic (h : d.Sound) : d.Acyclic := by
  intro id hcycle
  have hlt : ∀ {a b}, TransGen d.Refers a b → a.index < b.index := by
    intro a b hab
    induction hab with
    | single hstep => exact (h.behind _ _ hstep).1
    | tail _ hstep ih => exact Nat.lt_trans ih (h.behind _ _ hstep).1
  exact Nat.lt_irrefl _ (hlt hcycle)

/-! ## Cycles -/

theorem lt_size_of_refers (h : d.Refers id child) : id.index < d.nodes.size := by
  refine Nat.lt_of_not_le fun hle ↦ ?_
  rw [Refers, kindAt_of_size_le hle] at h
  cases h

/-- The mapping refers to what was hung in it, and all other nodes refer to what they did. -/
theorem refers_spliceValue (hmap : d.isMapping map = true)
    (hvalue : (d.node? value).isSome = true) (key : String) :
    (d.spliceValue map key value).Refers map value ∧
      ∀ id child, id ≠ map → d.Refers id child → (d.spliceValue map key value).Refers id child := by
  obtain ⟨node, hnode⟩ := Option.isSome_iff_exists.1 hvalue
  rcases spliceValue_cases key hmap hnode with ⟨entry, hfound, heq⟩ | ⟨-, heq⟩
  · have hmem := mem_entries_of_found hfound
    obtain ⟨c, hparent⟩ := node?_of_mem_entries hmem
    rw [heq]
    refine ⟨?_, fun id child hne hrefers ↦ ?_⟩
    · rw [Refers, kindAt_setKind hparent, if_pos rfl]
      have hindex := (List.getElem?_eq_some_iff.1 (findEntry?_eq_some_iff.1 hfound).2).1
      exact List.mem_append_right _ (List.mem_map_of_mem (f := Prod.snd)
        (List.mem_of_getElem? (List.getElem?_set_self hindex)))
    · rwa [Refers, kindAt_setKind hparent, if_neg hne]
  · obtain ⟨entries, c, hparent⟩ := node?_of_isMapping hmap
    rw [heq]
    refine ⟨?_, fun id child hne hrefers ↦ ?_⟩
    · rw [Refers, kindAt_hung hparent, if_pos rfl, (children_append entries _ _).mem_iff]
      exact List.mem_cons_of_mem _ List.mem_cons_self
    · rwa [Refers, kindAt_hung hparent, if_neg hne,
        if_neg (Nat.ne_of_lt (lt_size_of_refers hrefers))]

/-- A call makes a cycle exactly when it hangs a node in a mapping below it. -/
theorem acyclic_call_iff (h : d.Acyclic) (c : Call) : (d.call c).Acyclic ↔ ¬ d.ClosesCycle c := by
  constructor
  · intro hacyclic hcloses
    cases c with
    | spliceValue map key value =>
      obtain ⟨hmap, hvalue, hreach⟩ := hcloses
      obtain ⟨hlink, hothers⟩ := refers_spliceValue hmap hvalue key
      exact hacyclic map (.head' hlink (reflTransGen_of_ne hothers hreach))
    | _ => exact hcloses
  · intro hopen id hcycle
    have hlinked := linked_call d c
    obtain ⟨next, hnext, -⟩ := TransGen.head'_iff.1 hcycle
    have hpath : TransGen (fun a b ↦ d.Refers a b ∨ c.Links d a b) id id :=
      transGen_of_leaves (fun a b hab ↦ (hlinked.refers a b hab).imp_right And.right) hcycle
        ⟨next, hnext⟩
    cases c with
    | spliceValue map key value =>
      by_cases hguard : d.isMapping map = true ∧ (d.node? value).isSome = true
      · have hlink : TransGen (fun a b ↦ d.Refers a b ∨ (a = map ∧ b = value)) id id :=
          TransGen.mono (fun a b hab ↦ hab.imp_right And.right) _ _ hpath
        rcases transGen_or_link hlink with hold | ⟨hto, hfrom⟩
        · exact h id hold
        · exact hopen ⟨hguard.1, hguard.2, hfrom.trans hto⟩
      · exact h id (TransGen.mono (fun a b hab ↦ hab.resolve_right fun hlink ↦ hguard hlink.1) _ _
          hpath)
    | _ => exact h id (TransGen.mono (fun a b hab ↦ hab.resolve_right False.elim) _ _ hpath)

/-! ## Nodes that have a tree -/

/-- There are no more different nodes than places in the table. -/
theorem length_le_size {ids : List NodeId} (hnodup : ids.Nodup)
    (hids : ∀ id ∈ ids, id.index < d.nodes.size) : ids.length ≤ d.nodes.size := by
  have hindices : (ids.map NodeId.index).Nodup :=
    hnodup.map fun a b hab ↦ by cases a; cases b; exact congrArg NodeId.mk hab
  have hsub : ids.map NodeId.index ⊆ List.range d.nodes.size := by
    intro index hmem
    obtain ⟨id, hid, rfl⟩ := List.mem_map.1 hmem
    exact List.mem_range.2 (hids id hid)
  simpa using (hindices.subperm hsub).length_le

/-- A path down from the root of a tree meets no node twice, so it is no longer than the table. -/
theorem exists_unfold (htable : d.InTable) (hacyclic : d.Acyclic) (depth : Nat)
    {above : List NodeId} (hnodup : above.Nodup)
    (habove : ∀ a ∈ above, a.index < d.nodes.size ∧ TransGen d.Refers a id)
    (hid : id.index < d.nodes.size) (hdepth : d.nodes.size ≤ depth + above.length) :
    ∃ t, unfold d.nodes depth id = some t := by
  have hnot : id ∉ above := fun hmem ↦ hacyclic id (habove id hmem).2
  induction depth generalizing id above with
  | zero =>
    -- This node and those above it are more places than the table has.
    have hlength : (id :: above).length ≤ d.nodes.size :=
      length_le_size (List.nodup_cons.2 ⟨hnot, hnodup⟩)
        (List.forall_mem_cons.2 ⟨hid, fun a ha ↦ (habove a ha).1⟩)
    rw [List.length_cons] at hlength
    omega
  | succ depth ih =>
    obtain ⟨node, hnode⟩ := exists_node hid
    refine exists_unfold_of_children hnode fun child hmem ↦ ?_
    have hrefers : d.Refers id child := by rwa [Refers, kindAt_eq hnode]
    have habove' : ∀ a ∈ id :: above, a.index < d.nodes.size ∧ TransGen d.Refers a child :=
      List.forall_mem_cons.2 ⟨⟨hid, .single hrefers⟩,
        fun a ha ↦ ⟨(habove a ha).1, (habove a ha).2.tail hrefers⟩⟩
    refine ih (List.nodup_cons.2 ⟨hnot, hnodup⟩) habove' (htable.child id child hrefers) ?_
      fun hmem' ↦ hacyclic child (habove' child hmem').2
    rw [List.length_cons]
    omega

theorem exists_of_mapM {α β : Type} {f : α → Option β} {as : List α} {bs : List β}
    (h : as.mapM f = some bs) {a : α} (ha : a ∈ as) : ∃ b, f a = some b := by
  induction as generalizing bs with
  | nil => cases ha
  | cons first as ih =>
    obtain ⟨b, bs', hb, hbs', -⟩ := mapM_cons_eq_some_iff.1 h
    rcases List.mem_cons.1 ha with rfl | ha
    · exact ⟨b, hb⟩
    · exact ih hbs' ha

/-- The nodes that a node with a tree refers to have trees of one level less. -/
theorem exists_unfold_of_refers {depth : Nat} {t : Tree}
    (h : unfold d.nodes (depth + 1) id = some t) (hrefers : d.Refers id child) :
    ∃ t', unfold d.nodes depth child = some t' := by
  obtain ⟨⟨kind, c⟩, hnode⟩ := exists_node (lt_size_of_refers hrefers)
  rw [Refers, kindAt_eq hnode] at hrefers
  cases kind with
  | scalar text style => cases hrefers
  | mapping entries =>
    rw [unfold_mapping depth hnode] at h
    obtain ⟨trees, htrees, -⟩ := Option.map_eq_some_iff.1 h
    have hentry (entry : NodeId × NodeId) (hmem : entry ∈ entries) :
        (∃ t', unfold d.nodes depth entry.1 = some t') ∧
          ∃ t', unfold d.nodes depth entry.2 = some t' := by
      obtain ⟨⟨k, v⟩, hpair⟩ := exists_of_mapM htrees hmem
      obtain ⟨hk, hv⟩ := unfoldEntry_eq_some_iff.1 hpair
      exact ⟨⟨k, hk⟩, v, hv⟩
    rcases List.mem_append.1 hrefers with hkey | hvalue
    · obtain ⟨entry, hmem, rfl⟩ := List.mem_map.1 hkey
      exact (hentry entry hmem).1
    · obtain ⟨entry, hmem, rfl⟩ := List.mem_map.1 hvalue
      exact (hentry entry hmem).2
  | sequence items =>
    rw [unfold_sequence depth hnode] at h
    obtain ⟨trees, htrees, -⟩ := Option.map_eq_some_iff.1 h
    exact exists_of_mapM htrees hrefers

/-- A node that contains itself unfolds without end. -/
theorem unfold_of_cycle (hcycle : TransGen d.Refers id id) (depth : Nat) :
    unfold d.nodes depth id = none := by
  induction depth generalizing id with
  | zero => rfl
  | succ depth ih =>
    obtain ⟨next, hnext, hback⟩ := TransGen.head'_iff.1 hcycle
    rw [Option.eq_none_iff_forall_ne_some]
    intro t ht
    obtain ⟨t', ht'⟩ := exists_unfold_of_refers ht hnext
    rw [ih (.tail' hback hnext)] at ht'
    cases ht'

theorem acyclic_iff_forall_treeAt? (htable : d.InTable) :
    d.Acyclic ↔ ∀ id, id.index < d.nodes.size → ∃ t, d.treeAt? id = some t := by
  constructor
  · intro hacyclic id hid
    exact exists_unfold htable hacyclic d.nodes.size List.nodup_nil (List.forall_mem_nil _) hid
      (Nat.le_add_right _ _)
  · intro htrees id hcycle
    obtain ⟨next, hnext, -⟩ := TransGen.head'_iff.1 hcycle
    obtain ⟨t, ht⟩ := htrees id (lt_size_of_refers hnext)
    rw [treeAt?, unfold_of_cycle hcycle] at ht
    cases ht

/-! ## Lookups -/

/-- Where a lookup leads: all its nodes are in the table, and its position is in the mapping. -/
theorem InTable.entry_lt (h : d.InTable) {entry : Entry}
    (hfound : d.findEntry? map key = some entry) :
    map.index < d.nodes.size ∧ entry.key.index < d.nodes.size ∧
      entry.value.index < d.nodes.size ∧ entry.index < (d.entries map).length := by
  have hmem := mem_entries_of_found hfound
  obtain ⟨c, hnode⟩ := node?_of_mem_entries hmem
  obtain ⟨hinKeys, hinValues⟩ := mem_children_of_entry hmem
  have hkey : d.Refers map entry.key := List.mem_append_left _ hinKeys
  have hvalue : d.Refers map entry.value := List.mem_append_right _ hinValues
  exact ⟨lt_size_of_node? hnode, h.child _ _ hkey, h.child _ _ hvalue,
    (List.getElem?_eq_some_iff.1 (findEntry?_eq_some_iff.1 hfound).2).1⟩

/-! ## Runs -/

/-- A document to begin with: a new one or one that was read. -/
def IsStart (d : Document) : Prop :=
  d = empty ∨ ∃ text, parse text = .ok d

theorem IsStart.sound (h : d.IsStart) : d.Sound := by
  rcases h with rfl | ⟨text, hparse⟩
  · exact sound_root {}
  · exact (sound_of_parse hparse).1

theorem acyclic_callAll_iff (h : d.Acyclic) (calls : List Call) :
    (∀ front, front <+: calls → (d.callAll front).Acyclic) ↔
      ∀ front c, front ++ [c] <+: calls → ¬ (d.callAll front).ClosesCycle c := by
  have hstep (front : List Call) (c : Call) :
      d.callAll (front ++ [c]) = (d.callAll front).call c := List.foldl_concat _ _ _ _
  constructor
  · intro hall front c hfront
    have hbefore := hall front ((List.prefix_append front [c]).trans hfront)
    rw [← acyclic_call_iff hbefore, ← hstep]
    exact hall _ hfront
  · intro hopen front hfront
    induction front using List.reverseRecOn with
    | nil => exact h
    | append_singleton front c ih =>
      rw [hstep, acyclic_call_iff (ih ((List.prefix_append front [c]).trans hfront))]
      exact hopen front c hfront

/-- Whatever is called, with whatever ids, all references and lookups stay inside the table. No node
ever contained itself exactly when no call hung a node in a mapping below it, and when no node
contains itself, and only then, each has a tree. -/
theorem trees_of_callAll (h : d.IsStart) (calls : List Call) :
    (d.callAll calls).InTable ∧
    (∀ map key entry, findEntry? (d.callAll calls) map key = some entry →
      map.index < (d.callAll calls).nodes.size ∧ entry.key.index < (d.callAll calls).nodes.size ∧
        entry.value.index < (d.callAll calls).nodes.size ∧
        entry.index < ((d.callAll calls).entries map).length) ∧
    ((∀ front, front <+: calls → (d.callAll front).Acyclic) ↔
      ∀ front c, front ++ [c] <+: calls → ¬ (d.callAll front).ClosesCycle c) ∧
    ((d.callAll calls).Acyclic ↔ ∀ id, id.index < (d.callAll calls).nodes.size →
      ∃ t, (d.callAll calls).treeAt? id = some t) := by
  have htable := h.sound.inTable.callAll calls
  exact ⟨htable, fun map key entry ↦ htable.entry_lt, acyclic_callAll_iff h.sound.acyclic calls,
    acyclic_iff_forall_treeAt? htable⟩

end

/-- A mapping that hangs at two places is no cycle. The id of another document leads nowhere. -/
theorem trees_of_callAll_shared :
    empty.IsStart ∧ (empty.callAll [.addMapping, .spliceValue ⟨0⟩ "a" ⟨1⟩,
      .spliceValue ⟨0⟩ "b" ⟨1⟩, .edit (.setText ⟨1⟩ "c" "x"),
      .spliceValue ⟨1⟩ "d" ⟨99⟩]).Acyclic := by
  refine ⟨.inl rfl, (trees_of_callAll (.inl rfl) _).2.2.2.2 fun ⟨index⟩ hindex ↦ ?_⟩
  rw [← Option.isSome_iff_exists]
  revert index
  decide

/-- A mapping that was hung in itself contains itself and has no tree. -/
theorem mapping_contains_itself :
    ¬ ∀ (d : Document) (calls : List Call), d.IsStart → (d.callAll calls).Acyclic ∧
      ∀ id, id.index < (d.callAll calls).nodes.size →
        ∃ t, (d.callAll calls).treeAt? id = some t := by
  intro h
  refine (h empty [.addMapping, .spliceValue ⟨1⟩ "a" ⟨1⟩] (.inl rfl)).1 ⟨1⟩ (.single ?_)
  rw [Refers]
  decide

end LayeredConfig.Document
