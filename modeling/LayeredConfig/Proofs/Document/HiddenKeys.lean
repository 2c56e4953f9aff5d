import LayeredConfig.Proofs.Document.TreePath
import LayeredConfig.Proofs.Document.Writable

/-!
# Trees without some keys

A file is written without certain top-level keys. Changes under other keys do to what is written
what they do to the whole tree, and changes under those keys do nothing to it.
-/

namespace LayeredConfig.Tree

/-- The entries that stay when some keys are hidden. -/
def visible (exclude : List String) (entries : List (Tree × Tree)) : List (Tree × Tree) :=
  entries.filter fun entry ↦ !isExcluded exclude entry.1

/-- The tree that is left when some top-level keys are hidden. -/
def without (exclude : List String) : Tree → Tree
  | mapping c entries => mapping c (visible exclude entries)
  | t => t

variable {t t' : Tree} {key : String} {exclude : List String} {f : Change}
  {entries entries' : List (Tree × Tree)} {entry : Tree × Tree}

theorem visible_nil (exclude : List String) : visible exclude [] = [] := rfl

theorem visible_cons_of_shown (h : isExcluded exclude entry.1 = false)
    (rest : List (Tree × Tree)) : visible exclude (entry :: rest) = entry :: visible exclude rest := by
  rw [visible, List.filter_cons, h]
  rfl

theorem visible_cons_of_hidden (h : isExcluded exclude entry.1 = true)
    (rest : List (Tree × Tree)) : visible exclude (entry :: rest) = visible exclude rest := by
  rw [visible, List.filter_cons, h]
  rfl

theorem encode_without (exclude : List String) (t : Tree) :
    (t.without exclude).encode [] = t.encode exclude := by
  cases t with
  | mapping c entries =>
    rw [encode, encode, fileLines_mapping exclude]
    rfl
  | scalar =>
    rw [encode, encode]
    rfl
  | sequence c items =>
    rw [encode, encode]
    cases items with
    | nil => rfl
    | cons => rfl

/-- Hiding the same keys once more hides nothing. -/
theorem without_without (exclude : List String) (t : Tree) :
    (t.without exclude).without exclude = t.without exclude := by
  cases t with
  | mapping c entries =>
    rw [without, without, visible, visible, List.filter_filter]
    simp only [Bool.and_self]
  | scalar => rfl
  | sequence => rfl

theorem isMapping_without (exclude : List String) (t : Tree) :
    (t.without exclude).isMapping = t.isMapping := by
  cases t <;> rfl

theorem isExcluded_of_hasKey (h : hasKey key entry = true) :
    isExcluded exclude entry.1 = exclude.contains key := by
  rw [isExcluded, hasKey_iff.1 h]

theorem isExcluded_of_not_mem (hkey : key ∉ exclude) (h : hasKey key entry = true) :
    isExcluded exclude entry.1 = false := by
  rw [isExcluded_of_hasKey h]
  simpa using hkey

theorem isExcluded_of_mem (hkey : key ∈ exclude) (h : hasKey key entry = true) :
    isExcluded exclude entry.1 = true := by
  rw [isExcluded_of_hasKey h]
  simpa using hkey

/-! ## Changes under a visible key -/

theorem updateEntries_visible (hkey : key ∉ exclude)
    (h : updateEntries key f entries = .ok entries') :
    updateEntries key f (visible exclude entries) = .ok (visible exclude entries') := by
  induction entries generalizing entries' with
  | nil =>
    obtain ⟨v, hv, h⟩ := bind_eq_ok_iff.1 h
    obtain rfl := Except.ok.inj h
    have hnew : hasKey key (newScalar key, v) = true := hasKey_iff.2 rfl
    rw [visible_cons_of_shown (isExcluded_of_not_mem hkey hnew), visible_nil, updateEntries, hv]
    rfl
  | cons entry rest ih =>
    rw [updateEntries] at h
    split at h
    · rename_i hentry
      obtain ⟨v, hv, h⟩ := bind_eq_ok_iff.1 h
      obtain rfl := Except.ok.inj h
      have hentry' : hasKey key (entry.1, v) = true := hentry
      rw [visible_cons_of_shown (isExcluded_of_not_mem hkey hentry),
        visible_cons_of_shown (isExcluded_of_not_mem hkey hentry'), updateEntries, if_pos hentry, hv]
      rfl
    · rename_i hentry
      obtain ⟨rest', hrest, h⟩ := bind_eq_ok_iff.1 h
      obtain rfl := Except.ok.inj h
      cases hexcluded : isExcluded exclude entry.1 with
      | false =>
        rw [visible_cons_of_shown hexcluded, visible_cons_of_shown hexcluded, updateEntries,
          if_neg hentry, ih hrest]
        rfl
      | true =>
        rw [visible_cons_of_hidden hexcluded, visible_cons_of_hidden hexcluded]
        exact ih hrest

theorem update_without (hkey : key ∉ exclude) (h : t.update key f = .ok t') :
    (t.without exclude).update key f = .ok (t'.without exclude) := by
  obtain ⟨c, entries, entries', rfl, hentries, rfl⟩ := update_eq_ok_iff.1 h
  exact update_eq_ok_iff.2 ⟨c, _, _, rfl, updateEntries_visible hkey hentries, rfl⟩

theorem lookupEntries_visible (hkey : key ∉ exclude) (entries : List (Tree × Tree)) :
    lookupEntries key (visible exclude entries) = lookupEntries key entries := by
  induction entries with
  | nil => rfl
  | cons entry rest ih =>
    by_cases hentry : hasKey key entry = true
    · rw [visible_cons_of_shown (isExcluded_of_not_mem hkey hentry),
        lookupEntries_of_hasKey _ hentry, lookupEntries_of_hasKey _ hentry]
    · rw [lookupEntries_of_not_hasKey rest hentry, ← ih]
      cases hexcluded : isExcluded exclude entry.1 with
      | false => rw [visible_cons_of_shown hexcluded, lookupEntries_of_not_hasKey _ hentry]
      | true => rw [visible_cons_of_hidden hexcluded]

theorem lookup?_without (hkey : key ∉ exclude) (t : Tree) :
    (t.without exclude).lookup? key = t.lookup? key := by
  cases t with
  | mapping c entries => exact lookupEntries_visible hkey entries
  | scalar => rfl
  | sequence => rfl

theorem storeAt_without {text : String} {path : List String} (hkey : key ∉ exclude)
    (h : storeAt text key path t = .ok t') :
    storeAt text key path (t.without exclude) = .ok (t'.without exclude) := by
  cases path with
  | nil => exact update_without hkey h
  | cons next path => exact update_without hkey h

/-! ## Changes under a hidden key -/

theorem updateEntries_hidden (hkey : key ∈ exclude)
    (h : updateEntries key f entries = .ok entries') :
    visible exclude entries' = visible exclude entries := by
  induction entries generalizing entries' with
  | nil =>
    obtain ⟨v, -, h⟩ := bind_eq_ok_iff.1 h
    obtain rfl := Except.ok.inj h
    have hnew : hasKey key (newScalar key, v) = true := hasKey_iff.2 rfl
    rw [visible_cons_of_hidden (isExcluded_of_mem hkey hnew)]
  | cons entry rest ih =>
    rw [updateEntries] at h
    split at h
    · rename_i hentry
      obtain ⟨v, -, h⟩ := bind_eq_ok_iff.1 h
      obtain rfl := Except.ok.inj h
      have hentry' : hasKey key (entry.1, v) = true := hentry
      rw [visible_cons_of_hidden (isExcluded_of_mem hkey hentry),
        visible_cons_of_hidden (isExcluded_of_mem hkey hentry')]
    · obtain ⟨rest', hrest, h⟩ := bind_eq_ok_iff.1 h
      obtain rfl := Except.ok.inj h
      cases hexcluded : isExcluded exclude entry.1 with
      | false => rw [visible_cons_of_shown hexcluded, visible_cons_of_shown hexcluded, ih hrest]
      | true => rw [visible_cons_of_hidden hexcluded, visible_cons_of_hidden hexcluded, ih hrest]

theorem without_update (hkey : key ∈ exclude) (h : t.update key f = .ok t') :
    t'.without exclude = t.without exclude := by
  obtain ⟨c, entries, entries', rfl, hentries, rfl⟩ := update_eq_ok_iff.1 h
  rw [without, without, updateEntries_hidden hkey hentries]

/-- Where no hidden key stands at the top, nothing is hidden. -/
theorem without_eq_self (h : ∀ key ∈ exclude, t.lookup? key = none) : t.without exclude = t := by
  cases t with
  | mapping c entries =>
    have hall : ∀ entry ∈ entries, (!isExcluded exclude entry.1) = true := by
      intro entry hmem
      rw [Bool.not_eq_true', isExcluded]
      split
      · rename_i text htext
        rw [List.contains_eq_mem, decide_eq_false_iff_not]
        intro hexclude
        exact lookupEntries_eq_none_iff.1 (h text hexclude) entry hmem (hasKey_iff.2 htext)
      · rfl
    rw [without, visible, List.filter_eq_self.2 hall]
  | scalar => rfl
  | sequence => rfl

/-! ## Removing below a key -/

/-- Removes an entry of the mapping under a key, if it is there. -/
def dropBelow (key name : String) (t : Tree) : Tree :=
  match t.lookup? key >>= remove? name with
  | none => t
  | some u => (t.update key fun _ ↦ .ok u).toOption.getD t

theorem dropBelow_eq {name : String} {u : Tree} (hu : (t.lookup? key >>= remove? name) = some u)
    (h : t.update key (fun _ ↦ .ok u) = .ok t') : t.dropBelow key name = t' := by
  rw [dropBelow, hu]
  simp only [h]
  rfl

theorem dropBelow_eq_self {name : String} (h : (t.lookup? key >>= remove? name) = none) :
    t.dropBelow key name = t := by
  rw [dropBelow, h]

/-- Nothing is removed, or the value under the key changes. -/
theorem dropBelow_cases (key name : String) (t : Tree) :
    (t.lookup? key >>= remove? name) = none ∨
      ∃ u t', (t.lookup? key >>= remove? name) = some u ∧ t.update key (fun _ ↦ .ok u) = .ok t' := by
  cases hu : t.lookup? key >>= remove? name with
  | none => exact .inl rfl
  | some u =>
    have ht : t.isMapping = true := by
      cases t with
      | mapping => rfl
      | scalar => cases hu
      | sequence => cases hu
    obtain ⟨t', ht'⟩ := exists_update (f := fun _ ↦ .ok u) ht rfl
    exact .inr ⟨u, t', rfl, ht'⟩

theorem dropBelow_without {name : String} (hkey : key ∉ exclude) (t : Tree) :
    (t.without exclude).dropBelow key name = (t.dropBelow key name).without exclude := by
  have hlookup := lookup?_without hkey t
  rcases dropBelow_cases key name t with hnone | ⟨u, t', hu, ht'⟩
  · rw [dropBelow_eq_self hnone, dropBelow_eq_self]
    rw [hlookup, hnone]
  · rw [dropBelow_eq hu ht']
    apply dropBelow_eq _ (update_without hkey ht')
    rw [hlookup, hu]

theorem lookup?_dropBelow_of_ne {name key' : String} (hne : key' ≠ key) :
    (t.dropBelow key name).lookup? key' = t.lookup? key' := by
  rcases dropBelow_cases key name t with hnone | ⟨u, t', hu, ht'⟩
  · rw [dropBelow_eq_self hnone]
  · rw [dropBelow_eq hu ht', lookup?_update_of_ne ht' hne]

theorem isMapping_dropBelow {name : String} : (t.dropBelow key name).isMapping = t.isMapping := by
  rcases dropBelow_cases key name t with hnone | ⟨u, t', hu, ht'⟩
  · rw [dropBelow_eq_self hnone]
  · obtain ⟨c, entries, entries', rfl, -, rfl⟩ := update_eq_ok_iff.1 ht'
    rw [dropBelow_eq hu ht', isMapping, isMapping]

theorem isMapping_remove? {name : String} {u : Tree} (h : t.remove? name = some u) :
    u.isMapping = true := by
  obtain ⟨c, entries, rfl, -, rfl⟩ := remove?_eq_some_iff.1 h
  rfl

end LayeredConfig.Tree
