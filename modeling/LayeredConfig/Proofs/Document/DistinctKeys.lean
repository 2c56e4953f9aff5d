import Mathlib.Data.List.Nodup
import LayeredConfig.Proofs.Document.HiddenKeys
import LayeredConfig.Proofs.Document.Ownership

/-!
# Mappings without repeated keys

Of several entries under one key only the first is found, so that another one comes to light when
the first is removed. In a mapping that repeats no key, a key that was removed is gone, and changes
of such a mapping repeat no key either.
-/

namespace LayeredConfig.Tree

/-- The keys of entries, in their order. -/
def keyTexts (entries : List (Tree × Tree)) : List String :=
  entries.filterMap fun entry ↦ entry.1.text?

/-- No key of a mapping is repeated. -/
def DistinctKeys (t : Tree) : Prop :=
  (keyTexts t.entries).Nodup

/-- No mapping in a tree repeats a key. -/
inductive NoRepeats : Tree → Prop
  | scalar (c : Comments) (text : String) (style : ScalarStyle) : NoRepeats (.scalar c text style)
  | mapping {c : Comments} {entries : List (Tree × Tree)} (hkeys : (mapping c entries).DistinctKeys)
      (hbelow : ∀ entry ∈ entries, NoRepeats entry.2) : NoRepeats (.mapping c entries)
  | sequence {c : Comments} {items : List Tree} (hbelow : ∀ item ∈ items, NoRepeats item) :
      NoRepeats (.sequence c items)

/-- The mappings right below the top repeat no key. -/
def DistinctBelow (t : Tree) : Prop :=
  ∀ key v, t.lookup? key = some v → v.DistinctKeys

variable {t t' u v : Tree} {key name text : String} {path : List String} {f : Change}
  {g : Tree → Except ShapeError Tree} {o : Option Tree} {entries entries' : List (Tree × Tree)}

/-! ## Keys of changed mappings -/

theorem distinctKeys_of_entries_eq_nil (h : t.entries = []) : t.DistinctKeys := by
  rw [DistinctKeys, h]
  exact List.nodup_nil

theorem keyTexts_cons_of_hasKey {entry : Tree × Tree} (h : hasKey key entry = true)
    (rest : List (Tree × Tree)) : keyTexts (entry :: rest) = key :: keyTexts rest :=
  List.filterMap_cons_some (hasKey_iff.1 h)

theorem keyTexts_cons (entry : Tree × Tree) (rest : List (Tree × Tree)) :
    keyTexts (entry :: rest) = entry.1.text?.toList ++ keyTexts rest := by
  rw [keyTexts, List.filterMap_cons]
  cases entry.1.text? <;> rfl

theorem mem_keyTexts_iff : key ∈ keyTexts entries ↔ lookupEntries key entries ≠ none := by
  rw [ne_eq, lookupEntries_eq_none_iff, keyTexts, List.mem_filterMap]
  simp only [not_forall, not_not, hasKey_iff]
  constructor
  · rintro ⟨entry, hmem, hkey⟩
    exact ⟨entry, hmem, hkey⟩
  · rintro ⟨entry, hmem, hkey⟩
    exact ⟨entry, hmem, hkey⟩

/-- A change of one entry keeps all keys, or adds the key that was not there. -/
theorem keyTexts_updateEntries (h : updateEntries key f entries = .ok entries') :
    keyTexts entries' = keyTexts entries ∨
      lookupEntries key entries = none ∧ keyTexts entries' = keyTexts entries ++ [key] := by
  induction entries generalizing entries' with
  | nil =>
    obtain ⟨v, -, h⟩ := bind_eq_ok_iff.1 h
    obtain rfl := Except.ok.inj h
    exact .inr ⟨rfl, rfl⟩
  | cons entry rest ih =>
    rw [updateEntries] at h
    split at h
    · obtain ⟨v, -, h⟩ := bind_eq_ok_iff.1 h
      obtain rfl := Except.ok.inj h
      exact .inl rfl
    · rename_i hentry
      obtain ⟨rest', hrest, h⟩ := bind_eq_ok_iff.1 h
      obtain rfl := Except.ok.inj h
      rw [lookupEntries_of_not_hasKey rest hentry]
      rcases ih hrest with heq | ⟨hnone, heq⟩
      · rw [keyTexts_cons, keyTexts_cons, heq]
        exact .inl rfl
      · rw [keyTexts_cons, keyTexts_cons, heq, List.append_assoc]
        exact .inr ⟨hnone, rfl⟩

theorem DistinctKeys.update (h : t.DistinctKeys) (ht : t.update key f = .ok t') :
    t'.DistinctKeys := by
  obtain ⟨c, entries, entries', rfl, hentries, rfl⟩ := update_eq_ok_iff.1 ht
  change (keyTexts entries').Nodup
  rcases keyTexts_updateEntries hentries with heq | ⟨hnone, heq⟩
  · rw [heq]
    exact h
  · rw [heq, ← List.concat_eq_append, List.nodup_concat]
    exact ⟨fun hmem ↦ mem_keyTexts_iff.1 hmem hnone, h⟩

theorem DistinctKeys.remove? (h : t.DistinctKeys) (hu : t.remove? name = some u) :
    u.DistinctKeys := by
  obtain ⟨c, entries, rfl, -, rfl⟩ := remove?_eq_some_iff.1 hu
  exact h.sublist (List.eraseP_sublist.filterMap _)

/-! ## Removed keys -/

theorem lookupEntries_eraseP_of_ne (hne : key ≠ name) (entries : List (Tree × Tree)) :
    lookupEntries key (entries.eraseP (hasKey name)) = lookupEntries key entries := by
  induction entries with
  | nil => rfl
  | cons entry rest ih =>
    by_cases hentry : hasKey name entry = true
    · rw [List.eraseP_cons_of_pos hentry, lookupEntries_of_not_hasKey]
      rw [hasKey_eq_false_of_ne hentry hne]
      exact Bool.false_ne_true
    · rw [List.eraseP_cons_of_neg hentry]
      by_cases hkey : hasKey key entry = true
      · rw [lookupEntries_of_hasKey _ hkey, lookupEntries_of_hasKey _ hkey]
      · rw [lookupEntries_of_not_hasKey _ hkey, lookupEntries_of_not_hasKey _ hkey, ih]

theorem lookupEntries_eraseP (h : (keyTexts entries).Nodup) :
    lookupEntries name (entries.eraseP (hasKey name)) = none := by
  induction entries with
  | nil => rfl
  | cons entry rest ih =>
    by_cases hentry : hasKey name entry = true
    · rw [keyTexts_cons_of_hasKey hentry, List.nodup_cons] at h
      rw [List.eraseP_cons_of_pos hentry]
      exact Classical.byContradiction fun hne ↦ h.1 (mem_keyTexts_iff.2 hne)
    · rw [List.eraseP_cons_of_neg hentry, lookupEntries_of_not_hasKey _ hentry]
      refine ih (h.sublist ?_)
      exact (List.sublist_cons_self entry rest).filterMap _

theorem lookup?_remove?_of_ne (hu : t.remove? name = some u) (hne : key ≠ name) :
    u.lookup? key = t.lookup? key := by
  obtain ⟨c, entries, rfl, -, rfl⟩ := remove?_eq_some_iff.1 hu
  exact lookupEntries_eraseP_of_ne hne entries

theorem DistinctKeys.lookup?_remove? (h : t.DistinctKeys) (hu : t.remove? name = some u) :
    u.lookup? name = none := by
  obtain ⟨c, entries, rfl, -, rfl⟩ := remove?_eq_some_iff.1 hu
  exact lookupEntries_eraseP h

theorem lookup?_of_remove?_eq_none (h : t.remove? name = none) : t.lookup? name = none := by
  cases t with
  | mapping c entries =>
    rw [remove?] at h
    split at h
    · cases h
    · rename_i hany
      rw [List.any_eq_true] at hany
      exact lookupEntries_eq_none_iff.2 fun entry hmem hkey ↦ hany ⟨entry, hmem, hkey⟩
  | scalar => rfl
  | sequence => rfl

/-! ## Texts below a removed key -/

/-- Behind a removal the key is not found, if it was not repeated. -/
theorem valueAt?_dropBelow (h : t.DistinctBelow) (key name : String) (path : List String) :
    valueAt? (key :: name :: path) (t.dropBelow key name) = none := by
  rcases dropBelow_cases key name t with hnone | ⟨u, t', hu, ht'⟩
  · rw [dropBelow_eq_self hnone, valueAt?]
    cases hlookup : t.lookup? key with
    | none => rfl
    | some v =>
      rw [hlookup] at hnone
      change valueAt? (name :: path) v = none
      rw [valueAt?, lookup?_of_remove?_eq_none hnone]
      rfl
  · obtain ⟨w, hw, hlookup⟩ := lookup?_update ht'
    obtain rfl := Except.ok.inj hw
    rw [dropBelow_eq hu ht', valueAt?, hlookup]
    change valueAt? (name :: path) u = none
    cases hold : t.lookup? key with
    | none =>
      rw [hold] at hu
      cases hu
    | some v =>
      rw [hold] at hu
      rw [valueAt?, (h key v hold).lookup?_remove? hu]
      rfl

/-- A removal changes no text at another path. -/
theorem valueAt?_dropBelow_of_ne {key' : String} {path : List String}
    (hne : ∀ rest, key' :: path ≠ key :: name :: rest) :
    valueAt? (key' :: path) (t.dropBelow key name) = valueAt? (key' :: path) t := by
  by_cases hkey : key' = key
  · subst hkey
    rcases dropBelow_cases key' name t with hnone | ⟨u, t', hu, ht'⟩
    · rw [dropBelow_eq_self hnone]
    · obtain ⟨w, hw, hlookup⟩ := lookup?_update ht'
      obtain rfl := Except.ok.inj hw
      rw [dropBelow_eq hu ht', valueAt?, valueAt?, hlookup]
      cases hold : t.lookup? key' with
      | none =>
        rw [hold] at hu
        cases hu
      | some v =>
        rw [hold] at hu
        have hu : v.remove? name = some u := hu
        change valueAt? path u = valueAt? path v
        cases path with
        | nil =>
          have humap := isMapping_remove? hu
          cases v with
          | mapping =>
            cases u with
            | mapping => rfl
            | scalar => cases humap
            | sequence => cases humap
          | scalar => cases hu
          | sequence => cases hu
        | cons next path =>
          have hnext : next ≠ name := fun heq ↦ hne path (heq ▸ rfl)
          rw [valueAt?, valueAt?, lookup?_remove?_of_ne hu hnext]
  · rw [valueAt?, valueAt?, lookup?_dropBelow_of_ne hkey]

/-! ## Changes right below the top -/

/-- An opened mapping is new, or it was there before. -/
theorem inside_eq_ok_cases (h : inside key g o = .ok v) :
    ∃ u, g u = .ok v ∧ (u.entries = [] ∨ o = some u) := by
  cases o with
  | none => exact ⟨mapping {} [], h, .inl rfl⟩
  | some old =>
    cases old with
    | mapping c entries => exact ⟨mapping c entries, h, .inr rfl⟩
    | sequence => cases h
    | scalar c oldText style =>
      unfold inside at h
      split at h
      · rename_i heq
        cases heq
      · rename_i heq
        cases heq
      · exact ⟨mapping _ [], h, .inl rfl⟩
      · cases h

theorem DistinctBelow.update (h : t.DistinctBelow) (ht : t.update key f = .ok t')
    (hf : ∀ v, f (t.lookup? key) = .ok v → v.DistinctKeys) : t'.DistinctBelow := by
  intro key' w hw
  by_cases hkey : key' = key
  · subst hkey
    obtain ⟨v, hv, hlookup⟩ := lookup?_update ht
    rw [hlookup] at hw
    obtain rfl := Option.some.inj hw
    exact hf v hv
  · rw [lookup?_update_of_ne ht hkey] at hw
    exact h key' w hw

theorem DistinctBelow.inside (h : t.DistinctBelow) (hg : ∀ u, u.DistinctKeys → ∀ v, g u = .ok v →
    v.DistinctKeys) (ht : t.update key (inside key g) = .ok t') : t'.DistinctBelow := by
  refine h.update ht fun v hv ↦ ?_
  obtain ⟨u, hu, hempty | hold⟩ := inside_eq_ok_cases hv
  · exact hg u (distinctKeys_of_entries_eq_nil hempty) v hu
  · exact hg u (h key u hold) v hu

theorem DistinctBelow.storeAt (h : t.DistinctBelow) (ht : storeAt text key path t = .ok t') :
    t'.DistinctBelow := by
  cases path with
  | nil =>
    refine h.update ht fun v hv ↦ distinctKeys_of_entries_eq_nil ?_
    have htext := (storeText_eq_ok hv).1
    cases v with
    | scalar => rfl
    | mapping => cases htext
    | sequence => rfl
  | cons next path =>
    refine h.inside (fun u hu v hv ↦ ?_) ht
    cases path with
    | nil => exact hu.update hv
    | cons => exact hu.update hv

theorem DistinctBelow.dropBelow (h : t.DistinctBelow) (key name : String) :
    (t.dropBelow key name).DistinctBelow := by
  rcases dropBelow_cases key name t with hnone | ⟨u, t', hu, ht'⟩
  · rw [dropBelow_eq_self hnone]
    exact h
  · rw [dropBelow_eq hu ht']
    refine h.update ht' fun v hv ↦ ?_
    obtain rfl := Except.ok.inj hv
    cases hold : t.lookup? key with
    | none =>
      rw [hold] at hu
      cases hu
    | some w =>
      rw [hold] at hu
      exact (h key w hold).remove? hu

theorem NoRepeats.lookup? (h : t.NoRepeats) (hv : t.lookup? key = some v) : v.NoRepeats := by
  cases h with
  | scalar => cases hv
  | sequence => cases hv
  | mapping hkeys hbelow =>
    obtain ⟨entry, hfound, rfl⟩ := Option.map_eq_some_iff.1 hv
    exact hbelow entry (List.mem_of_find?_eq_some hfound)

theorem NoRepeats.distinctKeys (h : t.NoRepeats) : t.DistinctKeys := by
  cases h with
  | scalar => exact distinctKeys_of_entries_eq_nil rfl
  | sequence => exact distinctKeys_of_entries_eq_nil rfl
  | mapping hkeys => exact hkeys

/-! ## Opened mappings -/

/-- Opening a mapping changes no text that is not empty. -/
theorem nonEmpty?_valueAt?_open {key' : String} {path : List String}
    (ht : t.update key (inside key .ok) = .ok t') :
    nonEmpty? (valueAt? (key' :: path) t') = nonEmpty? (valueAt? (key' :: path) t) := by
  by_cases hkey : key' = key
  · subst hkey
    obtain ⟨v, hv, hlookup⟩ := lookup?_update ht
    obtain ⟨u, humap, hu, hempty, hold⟩ := inside_eq_ok hv
    obtain rfl := Except.ok.inj hu
    rw [valueAt?, valueAt?, hlookup]
    cases path with
    | nil =>
      have hnew : nonEmpty? (some u >>= text?) = none := by
        cases u with
        | scalar => cases humap
        | mapping => rfl
        | sequence => cases humap
      exact hnew.trans hempty.symm
    | cons next path =>
      rw [← hold next path]
      rfl
  · rw [valueAt?_update_of_ne ht hkey]

end LayeredConfig.Tree

namespace LayeredConfig.Document

open LayeredConfig.Tree

variable {d : Document} {t : Tree} {id : NodeId} {places : List NodeId}

/-- No mapping in the tree of a document repeats a key. -/
def NoRepeats (d : Document) : Prop :=
  ∀ t, d.tree? = some t → t.NoRepeats

theorem HangEntries.keys_eq {trees : List (Tree × Tree)} {entries : List (NodeId × NodeId)}
    (h : HangEntries d trees entries places) :
    (entries.filterMap fun entry ↦ d.scalar? entry.1) = keyTexts trees := by
  induction entries generalizing trees places with
  | nil =>
    cases h
    rfl
  | cons entry rest ih =>
    cases h with
    | cons hkey hvalue hrest =>
      rw [List.filterMap_cons, keyTexts_cons, ih hrest, hkey.scalar?_eq]
      split
      · rename_i hnone
        rw [hnone]
        rfl
      · rename_i hsome
        rw [hsome]
        rfl

/-- The keys of a mapping are those of its tree. -/
theorem Hangs.keys_eq (h : Hangs d t id places) : d.keys id = keyTexts t.entries := by
  cases h with
  | mapping node below =>
    rw [keys, entries_eq node]
    exact below.keys_eq
  | scalar node =>
    rw [keys, Document.entries, node]
    rfl
  | sequence node =>
    rw [keys, Document.entries, node]
    rfl

end LayeredConfig.Document
