import LayeredConfig.Proofs.Document.Ownership
import LayeredConfig.Proofs.Document.TreePath

/-!
# Edits of the table and edits of the tree

An edit of the table that succeeds makes of the tree what the same edit of the tree makes of it,
and touches nothing outside the tree. An edit that fails in the table fails in the tree. Edits of
a value that hangs in a mapping are edits of the mapping.
-/

namespace LayeredConfig.Document

open LayeredConfig.Tree

variable {d d' d'' : Document} {t t' u v w : Tree} {id map value : NodeId} {key text : String}
  {places places' places'' valuePlaces valuePlaces' : List NodeId}

/-! ## Trees that become others -/

/-- The tree at a node had some places and has become `t`; all other nodes stay. -/
structure Becomes (d : Document) (places : List NodeId) (d' : Document) (t : Tree) (id : NodeId)
    (places' : List NodeId) : Prop where
  root : d'.root = d.root
  size : d.nodes.size ≤ d'.nodes.size
  frame : ∀ i : NodeId, i.index < d.nodes.size → i ∉ places → d'.node? i = d.node? i
  hangs : Hangs d' t id places'
  nodup : places'.Nodup
  fresh : ∀ i ∈ places', i ∈ places ∨ d.nodes.size ≤ i.index

theorem Becomes.refl (h : Hangs d t id places) (hnodup : places.Nodup) :
    Becomes d places d t id places :=
  ⟨rfl, Nat.le_refl _, fun _ _ _ ↦ rfl, h, hnodup, fun _ hmem ↦ .inl hmem⟩

theorem Becomes.trans (h : Becomes d places d' t id places')
    (h' : Becomes d' places' d'' t' id places'') : Becomes d places d'' t' id places'' := by
  refine ⟨h'.root.trans h.root, Nat.le_trans h.size h'.size, ?_, h'.hangs, h'.nodup, ?_⟩
  · intro i hi hnot
    have hnot' : i ∉ places' := by
      intro hmem
      rcases h.fresh i hmem with hold | hnew
      · exact hnot hold
      · omega
    rw [h'.frame i (Nat.lt_of_lt_of_le hi h.size) hnot', h.frame i hi hnot]
  · intro i hmem
    rcases h'.fresh i hmem with hold | hnew
    · exact h.fresh i hold
    · exact .inr (Nat.le_trans h.size hnew)

/-- A mapping that is given other entries. -/
theorem Becomes.mapping {c c' : Comments} {trees : List (Tree × Tree)}
    {entries entries' : List (NodeId × NodeId)} {below below' : List NodeId}
    (hnode : d.node? map = some ⟨.mapping entries, c⟩) (hbelow : map ∉ below)
    (hroot : d'.root = d.root) (hsize : d.nodes.size ≤ d'.nodes.size)
    (hframe : ∀ i : NodeId, i.index < d.nodes.size → i ∉ map :: below → d'.node? i = d.node? i)
    (hnode' : d'.node? map = some ⟨.mapping entries', c'⟩)
    (hentries : HangEntries d' trees entries' below') (hnodup : below'.Nodup)
    (hfresh : ∀ i ∈ below', i ∈ below ∨ d.nodes.size ≤ i.index) :
    Becomes d (map :: below) d' (.mapping c' trees) map (map :: below') := by
  refine ⟨hroot, hsize, hframe, .mapping hnode' hentries, List.nodup_cons.2 ⟨?_, hnodup⟩, ?_⟩
  · intro hmem
    have hlt := lt_size_of_node? hnode
    rcases hfresh map hmem with hold | hnew
    · exact hbelow hold
    · omega
  · rw [List.forall_mem_cons]
    refine ⟨.inl List.mem_cons_self, fun i hmem ↦ ?_⟩
    rcases hfresh i hmem with hold | hnew
    · exact .inl (List.mem_cons_of_mem _ hold)
    · exact .inr hnew

/-! ## The first entry under a key -/

/-- The first entry under a key, between the entries before and behind it. -/
inductive FirstEntry (d : Document) (key : String) (entry : Entry) (v : Tree)
    (valuePlaces : List NodeId) : List (Tree × Tree) → List (NodeId × NodeId) → List NodeId → Prop
  | mk {before after : List (Tree × Tree)} {k : Tree} {entries entries' : List (NodeId × NodeId)}
      {places keyPlaces places' : List NodeId}
      (hbefore : HangEntries d before entries places) (hkey : Hangs d k entry.key keyPlaces)
      (hvalue : Hangs d v entry.value valuePlaces) (hafter : HangEntries d after entries' places')
      (hindex : entry.index = entries.length) (hnone : ∀ e ∈ before, ¬ hasKey key e = true)
      (htext : hasKey key (k, v) = true) :
      FirstEntry d key entry v valuePlaces (before ++ (k, v) :: after)
        (entries ++ (entry.key, entry.value) :: entries')
        (places ++ (keyPlaces ++ (valuePlaces ++ places')))

theorem firstEntry_of_findIdx? {trees : List (Tree × Tree)} {entries : List (NodeId × NodeId)}
    (h : HangEntries d trees entries places) {entry : Entry}
    (hindex : entries.findIdx? (fun e ↦ d.scalar? e.1 = some key) = some entry.index)
    (hentry : entries[entry.index]? = some (entry.key, entry.value)) :
    ∃ v valuePlaces, FirstEntry d key entry v valuePlaces trees entries places := by
  obtain ⟨keyId, valueId, index⟩ := entry
  induction entries generalizing trees places index with
  | nil => cases hentry
  | cons e rest ih =>
    cases h with
    | cons hkey hvalue hrest =>
      rename_i k v restTrees keyNode valueNode keyPlaces valuePlaces restPlaces
      rw [List.findIdx?_cons] at hindex
      split at hindex
      · rename_i htext
        obtain rfl := Option.some.inj hindex
        obtain ⟨rfl, rfl⟩ := Prod.mk.inj (Option.some.inj hentry)
        have hhas : hasKey key (k, v) = true := by
          rw [hasKey_iff, ← hkey.scalar?_eq]
          exact of_decide_eq_true htext
        exact ⟨v, valuePlaces, .mk .nil hkey hvalue hrest rfl (List.forall_mem_nil _) hhas⟩
      · rename_i htext
        obtain ⟨index', hindex', rfl⟩ := Option.map_eq_some_iff.1 hindex
        obtain ⟨v', valuePlaces', hfirst⟩ := ih hrest index' hindex' hentry
        have hnot : ¬ hasKey key (k, v) = true := by
          rw [hasKey_iff, ← hkey.scalar?_eq]
          exact fun heq ↦ htext (decide_eq_true heq)
        cases hfirst with
        | mk hbefore hkey' hvalue' hafter hlength hnone htext' =>
          have hbefore' := HangEntries.cons hkey hvalue hbefore
          have hmk : FirstEntry d key ⟨keyId, valueId, index' + 1⟩ v' valuePlaces' _ _ _ :=
            .mk hbefore' hkey' hvalue' hafter (congrArg (· + 1) hlength)
              (List.forall_mem_cons.2 ⟨hnot, hnone⟩) htext'
          refine ⟨v', valuePlaces', ?_⟩
          simpa only [List.append_assoc, List.cons_append] using hmk

/-! ## Changes of a value -/

/-- The tree `u` hangs where the value under a key of the mapping `t` was found or made. What
becomes of it becomes of that value. -/
structure Inside (d : Document) (t : Tree) (map : NodeId) (places : List NodeId) (key : String)
    (d' : Document) (u : Tree) (value : NodeId) (valuePlaces : List NodeId) : Prop where
  hangs : Hangs d' u value valuePlaces
  nodup : valuePlaces.Nodup
  lift : ∀ {d'' : Document} {w : Tree} {valuePlaces' : List NodeId},
    Becomes d' valuePlaces d'' w value valuePlaces' →
    ∃ t' places', t.update key (fun _ ↦ .ok w) = .ok t' ∧ Becomes d places d'' t' map places'

/-- The value itself may have changed before. -/
theorem Inside.step (h : Inside d t map places key d' u value valuePlaces)
    (hvalue : Becomes d' valuePlaces d'' w value valuePlaces') :
    Inside d t map places key d'' w value valuePlaces' :=
  ⟨hvalue.hangs, hvalue.nodup, fun hw ↦ h.lift (hvalue.trans hw)⟩

/-- The value under the key may have been made before. -/
theorem Inside.after (h : Becomes d places d' t' map places')
    (ht : t.update key (fun _ ↦ .ok v) = .ok t')
    (hinside : Inside d' t' map places' key d'' u value valuePlaces) :
    Inside d t map places key d'' u value valuePlaces := by
  refine ⟨hinside.hangs, hinside.nodup, fun hw ↦ ?_⟩
  obtain ⟨t'', places'', ht'', hbecomes⟩ := hinside.lift hw
  rw [update_update ht] at ht''
  exact ⟨t'', places'', ht'', h.trans hbecomes⟩

theorem nodup_replace {a b b' c : List NodeId} {size : Nat} (h : (a ++ (b ++ c)).Nodup)
    (hb' : b'.Nodup) (hfresh : ∀ i ∈ b', i ∈ b ∨ size ≤ i.index)
    (ha : ∀ i ∈ a, i.index < size) (hc : ∀ i ∈ c, i.index < size) : (a ++ (b' ++ c)).Nodup := by
  simp only [List.nodup_append, List.mem_append] at h ⊢
  obtain ⟨hna, ⟨-, hnc, hbc⟩, habc⟩ := h
  refine ⟨hna, ⟨hb', hnc, fun i hi j hj heq ↦ ?_⟩, fun i hi j hj heq ↦ ?_⟩
  · subst heq
    rcases hfresh i hi with hold | hnew
    · exact hbc i hold i hj rfl
    · exact absurd (hc i hj) (by omega)
  · subst heq
    rcases hj with hj | hj
    · rcases hfresh i hj with hold | hnew
      · exact habc i hi i (.inl hold) rfl
      · exact absurd (ha i hi) (by omega)
    · exact habc i hi i (.inr hj) rfl

theorem FirstEntry.lookupEntries_eq {entry : Entry} {trees : List (Tree × Tree)}
    {entries : List (NodeId × NodeId)} {below : List NodeId}
    (h : FirstEntry d key entry v valuePlaces trees entries below) :
    lookupEntries key trees = some v := by
  cases h with
  | mk _ _ _ _ _ hnone htext =>
    exact lookupEntries_eq_some_iff.2 ⟨_, _, _, rfl, hnone, htext⟩

theorem FirstEntry.frame {entry : Entry} {trees : List (Tree × Tree)}
    {entries : List (NodeId × NodeId)} {below : List NodeId}
    (h : FirstEntry d key entry v valuePlaces trees entries below)
    (hsame : ∀ i ∈ below, d'.node? i = d.node? i) :
    FirstEntry d' key entry v valuePlaces trees entries below := by
  cases h with
  | mk hbefore hkey hvalue hafter hindex hnone htext =>
    simp only [List.forall_mem_append] at hsame
    obtain ⟨hsameBefore, hsameKey, hsameValue, hsameAfter⟩ := hsame
    exact .mk (hbefore.frame hsameBefore) (hkey.frame hsameKey) (hvalue.frame hsameValue)
      (hafter.frame hsameAfter) hindex hnone htext

theorem set_split {before after : List (NodeId × NodeId)} {entry entry' : NodeId × NodeId} :
    (before ++ entry :: after).set before.length entry' = before ++ entry' :: after := by
  rw [List.set_append_right _ _ (Nat.le_refl _), Nat.sub_self, List.set_cons_zero]

/-- A mapping in which the value of one entry is another. -/
theorem Becomes.replace {c : Comments} {before after : List (Tree × Tree)} {k : Tree}
    {entries entries' : List (NodeId × NodeId)} {keyId valueId : NodeId}
    {before' keyPlaces after' : List NodeId} (hbefore : HangEntries d before entries before')
    (hkey : Hangs d k keyId keyPlaces) (hafter : HangEntries d after entries' after')
    (hnode : d.node? map = some ⟨.mapping (entries ++ (keyId, valueId) :: entries'), c⟩)
    (hnodup : (map :: (before' ++ (keyPlaces ++ (valuePlaces ++ after')))).Nodup)
    (hroot : d'.root = d.root) (hsize : d.nodes.size ≤ d'.nodes.size)
    (hframe : ∀ i : NodeId, i.index < d.nodes.size → i ∉ map :: valuePlaces →
      d'.node? i = d.node? i)
    (hnode' : d'.node? map = some ⟨.mapping (entries ++ (keyId, value) :: entries'), c⟩)
    (hw : Hangs d' w value valuePlaces') (hwNodup : valuePlaces'.Nodup)
    (hwFresh : ∀ i ∈ valuePlaces', i ∈ valuePlaces ∨ d.nodes.size ≤ i.index) :
    Becomes d (map :: (before' ++ (keyPlaces ++ (valuePlaces ++ after')))) d'
      (.mapping c (before ++ (k, w) :: after)) map
      (map :: (before' ++ (keyPlaces ++ (valuePlaces' ++ after')))) := by
  obtain ⟨hmap, hbelow⟩ := List.nodup_cons.1 hnodup
  have hparts := hbelow
  simp only [List.nodup_append, List.mem_append] at hparts
  obtain ⟨-, ⟨-, ⟨-, -, hvalueAfter⟩, hkeyRest⟩, hbeforeRest⟩ := hparts
  have hsame {ids : List NodeId} (hlt : ∀ i ∈ ids, i.index < d.nodes.size)
      (hbelow : ∀ i ∈ ids, i ∈ before' ++ (keyPlaces ++ (valuePlaces ++ after')))
      (hdisjoint : ∀ i ∈ ids, i ∉ valuePlaces) : ∀ i ∈ ids, d'.node? i = d.node? i := by
    intro i hi
    apply hframe i (hlt i hi)
    rw [List.mem_cons]
    rintro (rfl | hmem)
    · exact hmap (hbelow i hi)
    · exact hdisjoint i hi hmem
  have hbeforeKept : HangEntries d' before entries before' :=
    hbefore.frame (hsame hbefore.lt_size (fun i hi ↦ by simp [hi]) fun i hi hmem ↦
      hbeforeRest i hi i (.inr (.inl hmem)) rfl)
  have hkeyKept : Hangs d' k keyId keyPlaces :=
    hkey.frame (hsame hkey.lt_size (fun i hi ↦ by simp [hi]) fun i hi hmem ↦
      hkeyRest i hi i (.inl hmem) rfl)
  have hafterKept : HangEntries d' after entries' after' :=
    hafter.frame (hsame hafter.lt_size (fun i hi ↦ by simp [hi]) fun i hi hmem ↦
      hvalueAfter i hmem i hi rfl)
  have hentries := hbeforeKept.append (.cons hkeyKept hw hafterKept)
  refine Becomes.mapping hnode hmap hroot hsize ?_ hnode' hentries ?_ ?_
  · intro i hi hnot
    refine hframe i hi fun hmem ↦ hnot ?_
    rw [List.mem_cons] at hmem ⊢
    exact hmem.imp_right fun hvalue ↦ by simp [hvalue]
  · have hall : ((before' ++ keyPlaces) ++ (valuePlaces ++ after')).Nodup := by
      rwa [List.append_assoc]
    have hreplaced := nodup_replace hall hwNodup hwFresh
      (List.forall_mem_append.2 ⟨hbefore.lt_size, hkey.lt_size⟩) hafter.lt_size
    rwa [List.append_assoc] at hreplaced
  · simp only [List.mem_append]
    rintro i (hi | hi | hi | hi)
    · exact .inl (.inl hi)
    · exact .inl (.inr (.inl hi))
    · exact (hwFresh i hi).imp_left fun hold ↦ .inr (.inr (.inl hold))
    · exact .inl (.inr (.inr (.inr hi)))

/-- A mapping in which the first entry under a key holds another value. -/
theorem FirstEntry.replace {c : Comments} {entry : Entry} {trees : List (Tree × Tree)}
    {entries : List (NodeId × NodeId)} {below : List NodeId}
    (h : FirstEntry d key entry v valuePlaces trees entries below)
    (hnode : d.node? map = some ⟨.mapping entries, c⟩) (hnodup : (map :: below).Nodup)
    (hroot : d'.root = d.root) (hsize : d.nodes.size ≤ d'.nodes.size)
    (hframe : ∀ i : NodeId, i.index < d.nodes.size → i ∉ map :: valuePlaces →
      d'.node? i = d.node? i)
    (hnode' : d'.node? map = some ⟨.mapping (entries.set entry.index (entry.key, value)), c⟩)
    (hw : Hangs d' w value valuePlaces') (hwNodup : valuePlaces'.Nodup)
    (hwFresh : ∀ i ∈ valuePlaces', i ∈ valuePlaces ∨ d.nodes.size ≤ i.index) :
    ∃ t' places', (Tree.mapping c trees).update key (fun _ ↦ .ok w) = .ok t' ∧
      Becomes d (map :: below) d' t' map places' := by
  cases h with
  | mk hbefore hkey hvalue hafter hindex hnone htext =>
    rw [hindex, set_split] at hnode'
    exact ⟨_, _, update_eq_ok_iff.2 ⟨c, _, _, rfl, updateEntries_split hnone htext w, rfl⟩,
      .replace hbefore hkey hafter hnode hnodup hroot hsize hframe hnode' hw hwNodup hwFresh⟩

/-- The first value under a key can be changed where it hangs. -/
theorem FirstEntry.inside {c : Comments} {entry : Entry} {trees : List (Tree × Tree)}
    {entries : List (NodeId × NodeId)} {below : List NodeId}
    (h : FirstEntry d key entry v valuePlaces trees entries below)
    (hnode : d.node? map = some ⟨.mapping entries, c⟩) (hnodup : (map :: below).Nodup) :
    Inside d (.mapping c trees) map (map :: below) key d v entry.value valuePlaces := by
  have hvalue : Hangs d v entry.value valuePlaces ∧ valuePlaces.Nodup ∧ map ∉ valuePlaces ∧
      entries.set entry.index (entry.key, entry.value) = entries := by
    cases h with
    | mk _ _ hvalue _ hindex =>
      obtain ⟨hmap, hbelow⟩ := List.nodup_cons.1 hnodup
      simp only [List.nodup_append] at hbelow
      simp only [List.mem_append, not_or] at hmap
      exact ⟨hvalue, hbelow.2.1.2.1.1, hmap.2.2.1, by rw [hindex, set_split]⟩
  obtain ⟨hvalue, hvalueNodup, hmap, hset⟩ := hvalue
  refine ⟨hvalue, hvalueNodup, fun hw ↦ ?_⟩
  apply h.replace hnode hnodup hw.root hw.size _ _ hw.hangs hw.nodup hw.fresh
  · exact fun i hi hnot ↦ hw.frame i hi fun hmem ↦ hnot (List.mem_cons_of_mem _ hmem)
  · rw [hset, hw.frame map (lt_size_of_node? hnode) hmap, hnode]

/-- A value that is found can be changed where it hangs. -/
theorem Hangs.inside (h : Hangs d t map places) (hnodup : places.Nodup) {entry : Entry}
    (hfound : d.findEntry? map key = some entry) :
    ∃ v valuePlaces, t.lookup? key = some v ∧
      Inside d t map places key d v entry.value valuePlaces := by
  obtain ⟨hindex, hentry⟩ := findEntry?_eq_some_iff.1 hfound
  cases h with
  | scalar node =>
    rw [Document.entries, node] at hentry
    cases hentry
  | sequence node =>
    rw [Document.entries, node] at hentry
    cases hentry
  | mapping node below =>
    rw [entries_eq node] at hindex hentry
    obtain ⟨v, valuePlaces, hfirst⟩ := firstEntry_of_findIdx? below hindex hentry
    exact ⟨v, valuePlaces, hfirst.lookupEntries_eq, hfirst.inside node hnodup⟩

theorem HangEntries.scalar?_ne {trees : List (Tree × Tree)} {entries : List (NodeId × NodeId)}
    {places : List NodeId} (h : HangEntries d trees entries places)
    (hnone : ∀ entry ∈ entries, d.scalar? entry.1 ≠ some key) :
    ∀ entry ∈ trees, ¬ hasKey key entry = true :=
  match h with
  | .nil => List.forall_mem_nil _
  | .cons hkey _ hrest => by
    rw [List.forall_mem_cons] at hnone ⊢
    rw [hasKey_iff, ← hkey.scalar?_eq]
    exact ⟨hnone.1, hrest.scalar?_ne hnone.2⟩

theorem Hangs.lookup?_eq_none (h : Hangs d t map places) (hnone : d.findEntry? map key = none) :
    t.lookup? key = none := by
  cases h with
  | scalar => rfl
  | sequence => rfl
  | mapping node below =>
    rw [findEntry?_eq_none_iff, entries_eq node] at hnone
    exact lookupEntries_eq_none_iff.2 (below.scalar?_ne hnone)

/-! ## New entries -/

/-- A mapping that got an entry at the end, whose key and value are new. -/
theorem inside_append {c : Comments} {trees : List (Tree × Tree)}
    {entries : List (NodeId × NodeId)} {below : List NodeId} {keyId : NodeId}
    (hnode : d.node? map = some ⟨.mapping entries, c⟩)
    (hentries : HangEntries d trees entries below) (hnodup : (map :: below).Nodup)
    (hlookup : lookupEntries key trees = none) (hroot : d'.root = d.root)
    (hsize : d.nodes.size ≤ d'.nodes.size)
    (hframe : ∀ i : NodeId, i.index < d.nodes.size → i ≠ map → d'.node? i = d.node? i)
    (hnode' : d'.node? map = some ⟨.mapping (entries ++ [(keyId, value)]), c⟩)
    (hkey : Hangs d' (newScalar key) keyId [keyId]) (hvalue : Hangs d' v value valuePlaces)
    (hnew : (keyId :: valuePlaces).Nodup)
    (hfresh : ∀ i ∈ keyId :: valuePlaces, d.nodes.size ≤ i.index) :
    Inside d (.mapping c trees) map (map :: below) key d' v value valuePlaces := by
  obtain ⟨hnot, hbelow⟩ := List.nodup_cons.1 hnodup
  have hold : HangEntries d' trees entries below :=
    hentries.frame fun i hmem ↦ hframe i (hentries.lt_size i hmem) (ne_of_mem_of_not_mem hmem hnot)
  have hentries' := hold.append (.cons hkey hvalue .nil)
  have hplaces : below ++ ([keyId] ++ (valuePlaces ++ [])) = below ++ keyId :: valuePlaces := by
    rw [List.append_nil, List.singleton_append]
  have hnodup' : (below ++ keyId :: valuePlaces).Nodup := by
    refine List.nodup_append.2 ⟨hbelow, hnew, fun i hi j hj heq ↦ ?_⟩
    have hsmall := hentries.lt_size i hi
    have hbig := hfresh j hj
    subst heq
    omega
  have hbecomes : Becomes d (map :: below) d' (.mapping c (trees ++ [(newScalar key, v)])) map
      (map :: (below ++ ([keyId] ++ (valuePlaces ++ [])))) := by
    refine Becomes.mapping hnode hnot hroot hsize ?_ hnode' hentries' (hplaces ▸ hnodup') ?_
    · exact fun i hi hne ↦ hframe i hi fun heq ↦ hne (heq.symm ▸ List.mem_cons_self)
    · rw [hplaces]
      intro i hi
      rcases List.mem_append.1 hi with hi | hi
      · exact .inl hi
      · exact .inr (hfresh i hi)
  have hfirst : FirstEntry d' key ⟨keyId, value, entries.length⟩ v valuePlaces
      (trees ++ [(newScalar key, v)]) (entries ++ [(keyId, value)])
      (below ++ ([keyId] ++ (valuePlaces ++ []))) :=
    .mk hold hkey hvalue .nil rfl (lookupEntries_eq_none_iff.1 hlookup) (hasKey_iff.2 rfl)
  have hupdate := updateEntries_of_lookup_none hlookup v
  exact Inside.after hbecomes (update_eq_ok_iff.2 ⟨c, _, _, rfl, hupdate, rfl⟩)
    (hfirst.inside hnode' hbecomes.nodup)

/-- A new value can be changed where it hangs. -/
theorem Hangs.inside_addEntry (h : Hangs d t map places) (hnodup : places.Nodup)
    (hmap : d.isMapping map = true) (hnone : d.findEntry? map key = none) {kind : NodeKind}
    (hleaf : ∀ {d' : Document} {i : NodeId}, d'.node? i = some ⟨kind, {}⟩ → Hangs d' v i [i]) :
    Inside d t map places key (d.addEntry map key kind) v ⟨d.nodes.size + 1⟩
      [⟨d.nodes.size + 1⟩] := by
  have hlookup := h.lookup?_eq_none hnone
  cases h with
  | scalar node =>
    rw [Document.isMapping, node] at hmap
    cases hmap
  | sequence node =>
    rw [Document.isMapping, node] at hmap
    cases hmap
  | mapping node below =>
    have hnodes := node?_addEntry node key kind
    have hlt := lt_size_of_node? node
    have hroot : (d.addEntry map key kind).root = d.root := rfl
    have hkey : Hangs (d.addEntry map key kind) (newScalar key) ⟨d.nodes.size⟩
        [⟨d.nodes.size⟩] := by
      apply Hangs.scalar
      rw [hnodes, if_neg (by simp), if_pos rfl]
    have hvalue : Hangs (d.addEntry map key kind) v ⟨d.nodes.size + 1⟩ [⟨d.nodes.size + 1⟩] := by
      apply hleaf
      rw [hnodes, if_pos rfl]
    refine inside_append node below hnodup hlookup hroot (by simp) ?_ ?_ hkey hvalue (by simp)
      (by simp)
    · intro i hi hne
      rw [hnodes, if_neg (by omega), if_neg (by omega), if_neg hne]
    · rw [hnodes, if_neg (by omega), if_neg (by omega), if_pos rfl]

/-! ## Edits -/

/-- A kind that is put in the place of a leaf. -/
theorem becomes_setKind {kind : NodeKind}
    (hleaf : Hangs (d.setKind id kind) t id [id]) : Becomes d [id] (d.setKind id kind) t id [id] := by
  refine ⟨rfl, Nat.le_of_eq (size_modify d id _).symm, ?_, hleaf, List.pairwise_singleton _ id,
    fun _ hmem ↦ .inl hmem⟩
  intro i _ hne
  rw [node?_setKind, if_neg (List.ne_of_not_mem_cons hne)]

/-- A text that was stored in the table was stored in the tree. -/
theorem Hangs.setText (h : Hangs d t map places) (hnodup : places.Nodup) {entry : Entry}
    (hset : d.setText map key text = .ok (d', entry)) :
    ∃ t' places', t.update key (storeText key text) = .ok t' ∧ Becomes d places d' t' map places' := by
  obtain ⟨hmap, ⟨hfound, old, style, c, hnode, rfl⟩ | ⟨hnone, rfl⟩⟩ := setText_cases hset
  · obtain ⟨v, valuePlaces, hlookup, hinside⟩ := h.inside hnodup hfound
    obtain ⟨rfl, rfl⟩ := hinside.hangs.eq_scalar hnode
    have hleaf : Hangs (d.setKind entry.value (.scalar text (Scalar.styleFor text.toList style)))
        (.scalar c text (Scalar.styleFor text.toList style)) entry.value [entry.value] := by
      apply Hangs.scalar
      rw [node?_setKind, if_pos rfl, hnode]
      rfl
    obtain ⟨t', places', ht', hbecomes⟩ := hinside.lift (becomes_setKind hleaf)
    refine ⟨t', places', ?_, hbecomes⟩
    rw [← ht']
    apply update_congr
    rw [hlookup, storeText]
  · have hinside : Inside d t map places key _ (newScalar text) _ _ :=
      h.inside_addEntry hnodup hmap hnone .scalar
    obtain ⟨t', places', ht', hbecomes⟩ := hinside.lift (.refl hinside.hangs hinside.nodup)
    refine ⟨t', places', ?_, hbecomes⟩
    rw [← ht']
    apply update_congr
    rw [h.lookup?_eq_none hnone, storeText]

/-- What cannot be stored in the table cannot be stored in the tree. -/
theorem Hangs.update_of_setText_error (h : Hangs d t map places) (hnodup : places.Nodup)
    {e : ShapeError} (hset : d.setText map key text = .error e) :
    t.update key (storeText key text) = .error e := by
  rcases setText_error hset with ⟨hmap, rfl⟩ | ⟨entry, hfound, hnot, rfl⟩
  · rw [h.isMapping_eq] at hmap
    exact update_of_not_isMapping hmap
  · obtain ⟨v, valuePlaces, hlookup, hinside⟩ := h.inside hnodup hfound
    have hmap : t.isMapping = true := by
      rw [← h.isMapping_eq]
      exact isMapping_of_found hfound
    apply update_eq_error hmap
    rw [hlookup]
    rw [hinside.hangs.scalar?_eq] at hnot
    cases v with
    | scalar => cases hnot
    | mapping => rfl
    | sequence => rfl

/-- A mapping that was opened in the table is the one that is changed inside the tree. -/
theorem Hangs.ensureMapping (h : Hangs d t map places) (hnodup : places.Nodup)
    (hensure : d.ensureMapping map key = .ok (d', value)) :
    ∃ u valuePlaces, u.isMapping = true ∧ (∀ g, Tree.inside key g (t.lookup? key) = g u) ∧
      Inside d t map places key d' u value valuePlaces := by
  obtain ⟨hmap, ⟨entry, hfound, rfl, ⟨hvalue, rfl⟩ | ⟨c, hnode, rfl⟩⟩ | ⟨hnone, rfl, rfl⟩⟩ :=
    ensureMapping_cases hensure
  · obtain ⟨u, valuePlaces, hlookup, hinside⟩ := h.inside hnodup hfound
    rw [hinside.hangs.isMapping_eq] at hvalue
    refine ⟨u, valuePlaces, hvalue, fun g ↦ ?_, hinside⟩
    rw [hlookup]
    cases u with
    | mapping => rfl
    | scalar => cases hvalue
    | sequence => cases hvalue
  · obtain ⟨v, valuePlaces, hlookup, hinside⟩ := h.inside hnodup hfound
    obtain ⟨rfl, rfl⟩ := hinside.hangs.eq_scalar hnode
    have hempty : (d.setKind entry.value (.mapping [])).node? entry.value =
        some ⟨.mapping [], c⟩ := by
      rw [node?_setKind, if_pos rfl, hnode]
      rfl
    refine ⟨.mapping c [], [entry.value], rfl, fun g ↦ ?_,
      hinside.step (becomes_setKind (.mapping hempty .nil))⟩
    rw [hlookup, Tree.inside]
  · refine ⟨.mapping {} [], _, rfl, fun g ↦ ?_,
      h.inside_addEntry hnodup hmap hnone fun node ↦ .mapping node .nil⟩
    rw [h.lookup?_eq_none hnone, Tree.inside]

/-- What cannot be opened in the table cannot be changed inside the tree. -/
theorem Hangs.update_of_ensureMapping_error (h : Hangs d t map places) (hnodup : places.Nodup)
    {e : ShapeError} (hensure : d.ensureMapping map key = .error e)
    (g : Tree → Except ShapeError Tree) : t.update key (Tree.inside key g) = .error e := by
  rcases ensureMapping_error hensure with ⟨hmap, rfl⟩ | ⟨entry, hfound, hnot, hempty, rfl⟩
  · rw [h.isMapping_eq] at hmap
    exact update_of_not_isMapping hmap
  · obtain ⟨v, valuePlaces, hlookup, hinside⟩ := h.inside hnodup hfound
    have hmap : t.isMapping = true := by
      rw [← h.isMapping_eq]
      exact isMapping_of_found hfound
    apply update_eq_error hmap
    rw [hlookup]
    cases hinside.hangs with
    | scalar node =>
      rename_i c text style
      rw [Tree.inside]
      · exact fun c' entries heq ↦ by cases heq
      · intro c' heq
        cases heq
        exact hempty c node
    | mapping node =>
      rw [Document.isMapping, node] at hnot
      cases hnot
    | sequence node => rfl

/-! ## Removed entries -/

theorem eraseP_split {before after : List (Tree × Tree)} {k : Tree}
    (hbefore : ∀ entry ∈ before, ¬ hasKey key entry = true) (hkey : hasKey key (k, v) = true) :
    (before ++ (k, v) :: after).eraseP (hasKey key) = before ++ after := by
  rw [List.eraseP_append_right _ hbefore, List.eraseP_cons_of_pos hkey]

theorem eraseIdx_split {before after : List (NodeId × NodeId)} {entry : NodeId × NodeId} :
    (before ++ entry :: after).eraseIdx before.length = before ++ after := by
  rw [List.eraseIdx_append_of_length_le (Nat.le_refl _), Nat.sub_self, List.eraseIdx_cons_zero]

/-- An entry that was removed from the table was removed from the tree. -/
theorem Hangs.removeEntry (h : Hangs d t map places) (hnodup : places.Nodup) {entry : Entry}
    (hremove : d.removeEntry map key = some (d', entry)) :
    ∃ t' places', t.remove? key = some t' ∧ Becomes d places d' t' map places' := by
  obtain ⟨hfound, rfl⟩ := removeEntry_cases hremove
  obtain ⟨hindex, hentry⟩ := findEntry?_eq_some_iff.1 hfound
  cases h with
  | scalar node =>
    rw [Document.entries, node] at hentry
    cases hentry
  | sequence node =>
    rw [Document.entries, node] at hentry
    cases hentry
  | mapping node below =>
    rename_i c trees entries below'
    rw [entries_eq node] at hindex hentry ⊢
    obtain ⟨hmap, hbelow⟩ := List.nodup_cons.1 hnodup
    obtain ⟨v, valuePlaces, hfirst⟩ := firstEntry_of_findIdx? below hindex hentry
    have hlookup := hfirst.lookupEntries_eq
    cases hfirst with
    | mk hbefore hkey hvalue hafter hlength hnone htext =>
      rename_i before after k entries entries' places keyPlaces places'
      have hframe (kind : NodeKind) (i : NodeId) (hne : i ≠ map) :
          (d.setKind map kind).node? i = d.node? i := by
        rw [node?_setKind, if_neg hne]
      have hkept : HangEntries (d.setKind map (.mapping (entries ++ entries')))
          (before ++ after) (entries ++ entries') (places ++ places') := by
        apply (hbefore.append hafter).frame
        intro i hmem
        apply hframe
        rintro rfl
        apply hmap
        rcases List.mem_append.1 hmem with hmem | hmem <;> simp [hmem]
      have hnode' : (d.setKind map (.mapping (entries ++ entries'))).node? map =
          some ⟨.mapping (entries ++ entries'), c⟩ := by
        rw [node?_setKind, if_pos rfl, node]
        rfl
      have hany : (before ++ (k, v) :: after).any (hasKey key) = true :=
        List.any_eq_true.2 ⟨(k, v), by simp, htext⟩
      have hsublist : (places ++ places').Sublist
          (places ++ (keyPlaces ++ (valuePlaces ++ places'))) := by
        rw [← List.append_assoc keyPlaces]
        exact (List.Sublist.refl places).append (List.sublist_append_right _ _)
      rw [hlength, eraseIdx_split]
      refine ⟨.mapping c (before ++ after), map :: (places ++ places'), ?_, ?_⟩
      · rw [remove?, if_pos hany, eraseP_split hnone htext]
      · refine Becomes.mapping node hmap rfl (Nat.le_of_eq (size_modify d map _).symm) ?_ hnode' hkept
          (hbelow.sublist hsublist) fun i hmem ↦ .inl (hsublist.mem hmem)
        exact fun i _ hne ↦ hframe _ i (List.ne_of_not_mem_cons hne)

/-- What cannot be removed from the table cannot be removed from the tree. -/
theorem Hangs.remove?_eq_none (h : Hangs d t map places) (hremove : d.removeEntry map key = none) :
    t.remove? key = none := by
  have hnone : d.findEntry? map key = none := by
    cases hfound : d.findEntry? map key with
    | none => rfl
    | some entry =>
      rw [Document.removeEntry, hfound] at hremove
      cases hremove
  have hlookup := h.lookup?_eq_none hnone
  cases t with
  | scalar => rfl
  | sequence => rfl
  | mapping c trees =>
    have hany : ¬ trees.any (hasKey key) = true := by
      rw [List.any_eq_true]
      rintro ⟨entry, hmem, hentry⟩
      exact lookupEntries_eq_none_iff.1 hlookup entry hmem hentry
    rw [remove?, if_neg hany]

/-! ## Grafted trees -/

theorem size_le_of_mem_span {i : NodeId} (h : i ∈ span d.nodes.size u.size) :
    d.nodes.size ≤ i.index :=
  (mem_span.1 h).1

section Graft

variable {c : Comments} {trees : List (Tree × Tree)} {entries : List (NodeId × NodeId)}
  {below : List NodeId}

/-- The added tree takes the place of the value that a key has. -/
theorem becomes_set_addTree (hnode : d.node? map = some ⟨.mapping entries, c⟩)
    (hbelow : HangEntries d trees entries below) (hnodup : (map :: below).Nodup) {entry : Entry}
    (hfound : findEntry? (d.addTree u).1 map key = some entry) :
    ∃ t' places', (Tree.mapping c trees).update key (fun _ ↦ .ok u) = .ok t' ∧
      Becomes d (map :: below) ((d.addTree u).1.setKind map
        (.mapping (entries.set entry.index (entry.key, (d.addTree u).2)))) t' map places' := by
  have hlt := lt_size_of_node? hnode
  have hsame (i : NodeId) (hi : i.index < d.nodes.size) : (d.addTree u).1.node? i = d.node? i :=
    node?_addTree hi u
  have hnode' : (d.addTree u).1.node? map = some ⟨.mapping entries, c⟩ := (hsame map hlt).trans hnode
  have hbelow' : HangEntries (d.addTree u).1 trees entries below :=
    hbelow.frame fun i hmem ↦ hsame i (hbelow.lt_size i hmem)
  obtain ⟨hindex, hentry⟩ := findEntry?_eq_some_iff.1 hfound
  rw [entries_eq hnode'] at hindex hentry
  obtain ⟨v, valuePlaces, hfirst⟩ := firstEntry_of_findIdx? hbelow' hindex hentry
  have hfirst' : FirstEntry d key entry v valuePlaces trees entries below :=
    hfirst.frame fun i hmem ↦ (hsame i (hbelow.lt_size i hmem)).symm
  have hframe (i : NodeId) (hne : i ≠ map) : ((d.addTree u).1.setKind map (.mapping
      (entries.set entry.index (entry.key, (d.addTree u).2)))).node? i = (d.addTree u).1.node? i := by
    rw [node?_setKind, if_neg hne]
  refine hfirst'.replace hnode hnodup rfl ?_ ?_ ?_ ((hangs_addTree d u).frame ?_) (nodup_span _ _)
    fun i hmem ↦ .inr (size_le_of_mem_span hmem)
  · rw [setKind, size_modify, size_addTree]
    exact Nat.le_add_right _ _
  · exact fun i hi hnot ↦ (hframe i (List.ne_of_not_mem_cons hnot)).trans (hsame i hi)
  · rw [node?_setKind, if_pos rfl, hnode']
    rfl
  · intro i hmem
    apply hframe
    rintro rfl
    exact absurd (size_le_of_mem_span hmem) (Nat.not_le.2 hlt)

/-- The added tree is hung under a key that the mapping did not have. -/
theorem becomes_append_addTree (hnode : d.node? map = some ⟨.mapping entries, c⟩)
    (hbelow : HangEntries d trees entries below) (hnodup : (map :: below).Nodup)
    (hlookup : lookupEntries key trees = none) :
    ∃ t' places', (Tree.mapping c trees).update key (fun _ ↦ .ok u) = .ok t' ∧
      Becomes d (map :: below) (((d.addTree u).1.addScalar key).1.appendEntry map
        ⟨(d.addTree u).1.nodes.size⟩ (d.addTree u).2) t' map places' := by
  have hlt := lt_size_of_node? hnode
  have hsize := size_addTree d u
  have hadded := hangs_addTree d u
  have hsame (i : NodeId) (hi : i.index < d.nodes.size) : (d.addTree u).1.node? i = d.node? i :=
    node?_addTree hi u
  have hnodeKey : ((d.addTree u).1.addScalar key).1.node? map = some ⟨.mapping entries, c⟩ := by
    rw [addScalar, node?_addNode, if_neg (by omega), hsame map hlt, hnode]
  have hnodes := node?_appendEntry hnodeKey ⟨(d.addTree u).1.nodes.size⟩ (d.addTree u).2
  have hkeep (i : NodeId) (hi : i.index < (d.addTree u).1.nodes.size) (hne : i ≠ map) :
      (((d.addTree u).1.addScalar key).1.appendEntry map ⟨(d.addTree u).1.nodes.size⟩
        (d.addTree u).2).node? i = (d.addTree u).1.node? i := by
    rw [hnodes, if_neg hne, addScalar, node?_addNode, if_neg (Nat.ne_of_lt hi)]
  have hkey : Hangs (((d.addTree u).1.addScalar key).1.appendEntry map
      ⟨(d.addTree u).1.nodes.size⟩ (d.addTree u).2) (newScalar key)
      ⟨(d.addTree u).1.nodes.size⟩ [⟨(d.addTree u).1.nodes.size⟩] := by
    apply Hangs.scalar
    rw [hnodes, if_neg, addScalar, node?_addNode, if_pos rfl]
    rintro rfl
    dsimp only at hlt
    omega
  have hroot : (((d.addTree u).1.addScalar key).1.appendEntry map
      ⟨(d.addTree u).1.nodes.size⟩ (d.addTree u).2).root = d.root := rfl
  have hinside := inside_append hnode hbelow hnodup hlookup hroot ?_ ?_
    (by rw [hnodes, if_pos rfl]) hkey (hadded.frame ?_) ?_ ?_
  · exact hinside.lift (.refl hinside.hangs hinside.nodup)
  · rw [appendEntry, size_modify, addScalar, size_addNode]
    omega
  · exact fun i hi hne ↦ (hkeep i (by omega) hne).trans (hsame i hi)
  · intro i hmem
    apply hkeep i (hadded.lt_size i hmem)
    rintro rfl
    exact absurd (size_le_of_mem_span hmem) (Nat.not_le.2 hlt)
  · refine List.nodup_cons.2 ⟨fun hmem ↦ ?_, nodup_span _ _⟩
    exact absurd (hadded.lt_size _ hmem) (Nat.lt_irrefl _)
  · refine List.forall_mem_cons.2 ⟨?_, fun i hmem ↦ size_le_of_mem_span hmem⟩
    exact hsize ▸ Nat.le_add_right _ _

end Graft

/-- A tree that was added to the table and hung under a key. -/
theorem Hangs.spliceValue (h : Hangs d t map places) (hnodup : places.Nodup)
    (hmap : t.isMapping = true) (key : String) (u : Tree) :
    ∃ t' places', t.update key (fun _ ↦ .ok u) = .ok t' ∧
      Becomes d places ((d.addTree u).1.spliceValue map key (d.addTree u).2) t' map places' := by
  have hold : Hangs (d.addTree u).1 t map places :=
    h.frame fun i hmem ↦ node?_addTree (h.lt_size i hmem) u
  have hmap' : (d.addTree u).1.isMapping map = true := hold.isMapping_eq.trans hmap
  obtain ⟨addedNode, haddedNode⟩ := (hangs_addTree d u).exists_node
  cases h with
  | scalar => cases hmap
  | sequence => cases hmap
  | mapping hnode hbelow =>
    rcases spliceValue_cases key hmap' haddedNode with ⟨entry, hfound, heq⟩ | ⟨hnone, heq⟩
    · rw [heq, entries_eq ((node?_addTree (lt_size_of_node? hnode) u).trans hnode)]
      exact becomes_set_addTree hnode hbelow hnodup hfound
    · rw [heq]
      exact becomes_append_addTree hnode hbelow hnodup (hold.lookup?_eq_none hnone)

/-! ## Parts of a document -/

/-- The tree of a document hangs from its root and shares nothing. -/
def Holds (d : Document) (t : Tree) : Prop :=
  ∃ places, Hangs d t d.root places ∧ places.Nodup

theorem Holds.tree? (h : d.Holds t) : d.tree? = some t := by
  obtain ⟨places, hangs, hnodup⟩ := h
  exact hangs.treeAt? hnodup

/-- A tree that hangs in a document: whatever becomes of it, the document has a tree. -/
structure Part (d : Document) (u : Tree) (id : NodeId) (places : List NodeId) : Prop where
  hangs : Hangs d u id places
  nodup : places.Nodup
  lift : ∀ {d' : Document} {w : Tree} {places' : List NodeId},
    Becomes d places d' w id places' → ∃ t, d'.Holds t

theorem Becomes.holds (h : Becomes d places d' t d.root places') : d'.Holds t := by
  refine ⟨places', ?_, h.nodup⟩
  rw [h.root]
  exact h.hangs

theorem Holds.part (h : d.Holds t) : ∃ places, Part d t d.root places := by
  obtain ⟨places, hangs, hnodup⟩ := h
  exact ⟨places, hangs, hnodup, fun hw ↦ ⟨_, hw.holds⟩⟩

theorem Part.holds (h : Part d u id places) : ∃ t, d.Holds t :=
  h.lift (.refl h.hangs h.nodup)

theorem Part.becomes (h : Part d u id places) (hw : Becomes d places d' w id places') :
    Part d' w id places' :=
  ⟨hw.hangs, hw.nodup, fun hw' ↦ h.lift (hw.trans hw')⟩

/-- A value that is found or made in a part is a part. -/
theorem Part.inside (h : Part d t map places)
    (hinside : Inside d t map places key d' u value valuePlaces) : Part d' u value valuePlaces := by
  refine ⟨hinside.hangs, hinside.nodup, fun hw ↦ ?_⟩
  obtain ⟨t', places', -, hbecomes⟩ := hinside.lift hw
  exact h.lift hbecomes

/-! ## Edits at the root -/

/-- What can be stored in the tree can be stored in the document. -/
theorem Holds.setText (h : d.Holds t) (hstore : t.update key (storeText key text) = .ok t') :
    ∃ d' entry, d.setText d.root key text = .ok (d', entry) ∧ d'.Holds t' := by
  obtain ⟨places, hangs, hnodup⟩ := h
  cases hset : d.setText d.root key text with
  | error e =>
    rw [hangs.update_of_setText_error hnodup hset] at hstore
    cases hstore
  | ok result =>
    obtain ⟨d', entry⟩ := result
    obtain ⟨t'', places', hstore', hbecomes⟩ := hangs.setText hnodup hset
    rw [hstore] at hstore'
    obtain rfl := Except.ok.inj hstore'
    exact ⟨d', entry, rfl, hbecomes.holds⟩

/-- What can be removed from the tree can be removed from the document. -/
theorem Holds.removeEntry (h : d.Holds t) (hremove : t.remove? key = some t') :
    ∃ d' entry, d.removeEntry d.root key = some (d', entry) ∧ d'.Holds t' := by
  obtain ⟨places, hangs, hnodup⟩ := h
  cases hentry : d.removeEntry d.root key with
  | none =>
    rw [hangs.remove?_eq_none hentry] at hremove
    cases hremove
  | some result =>
    obtain ⟨d', entry⟩ := result
    obtain ⟨t'', places', hremove', hbecomes⟩ := hangs.removeEntry hnodup hentry
    rw [hremove] at hremove'
    obtain rfl := Option.some.inj hremove'
    exact ⟨d', entry, rfl, hbecomes.holds⟩

/-! ## Lookup -/

/-- What is found below a key of the table is found below it in the tree. -/
theorem Hangs.bind_found {α : Type} {f : NodeId → Option α} {g : Tree → Option α}
    (h : Hangs d t map places) (hnodup : places.Nodup)
    (hfg : ∀ {v id places}, Hangs d v id places → places.Nodup → f id = g v) :
    (d.findEntry? map key >>= fun entry ↦ f entry.value) = t.lookup? key >>= g := by
  cases hfound : d.findEntry? map key with
  | none =>
    rw [h.lookup?_eq_none hfound]
    rfl
  | some entry =>
    obtain ⟨v, valuePlaces, hlookup, hinside⟩ := h.inside hnodup hfound
    rw [hlookup]
    exact hfg hinside.hangs hinside.nodup

theorem Hangs.get?_eq (h : Hangs d t map places) (hnodup : places.Nodup) (key : String) :
    d.get? map key = valueAt? [key] t :=
  h.bind_found hnodup fun hv _ ↦ hv.scalar?_eq

end LayeredConfig.Document
