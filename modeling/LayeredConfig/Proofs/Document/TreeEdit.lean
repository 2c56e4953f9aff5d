import LayeredConfig.Document.Edit
import LayeredConfig.Proofs.Outcome

/-!
# Looking up and changing trees

An edit of a document is described by what it makes of the tree. A change acts on the first value
under a key, or makes a value where there is none; it may fail. Looking up the changed key finds
what the change made, and every other key is looked up as before.
-/

namespace LayeredConfig.Tree

/-! ## Entries by their keys -/

def entries : Tree → List (Tree × Tree)
  | mapping _ entries => entries
  | _ => []

def isMapping : Tree → Bool
  | mapping .. => true
  | _ => false

def hasKey (key : String) (entry : Tree × Tree) : Bool :=
  entry.1.text? = some key

def lookupEntries (key : String) (entries : List (Tree × Tree)) : Option Tree :=
  (entries.find? (hasKey key)).map Prod.snd

/-- The value of the first entry under a key. -/
def lookup? (t : Tree) (key : String) : Option Tree :=
  lookupEntries key t.entries

/-- A new scalar, plain if its text allows it. -/
def newScalar (text : String) : Tree :=
  scalar {} text (Scalar.styleFor text.toList .plain)

/-- What becomes of the value under a key, or of no value. -/
abbrev Change := Option Tree → Except ShapeError Tree

def updateEntries (key : String) (f : Change) :
    List (Tree × Tree) → Except ShapeError (List (Tree × Tree))
  | [] => do return [(newScalar key, ← f none)]
  | entry :: rest =>
    if hasKey key entry then do return (entry.1, ← f (some entry.2)) :: rest
    else do return entry :: (← updateEntries key f rest)

/-- Changes the first value under a key; a new value comes last. -/
def update (key : String) (f : Change) : Tree → Except ShapeError Tree
  | mapping c entries => do return mapping c (← updateEntries key f entries)
  | _ => .error ⟨key, .mapping⟩

/-- Overwrites a scalar, or makes a new one. -/
def storeText (key text : String) : Change
  | none => .ok (newScalar text)
  | some (scalar c _ style) => .ok (scalar c text (Scalar.styleFor text.toList style))
  | some _ => .error ⟨key, .scalar⟩

/-- Changes a mapping, which is made when there is none or only an empty plain value. -/
def inside (key : String) (g : Tree → Except ShapeError Tree) : Change
  | none => g (mapping {} [])
  | some (mapping c entries) => g (mapping c entries)
  | some (scalar c "" .plain) => g (mapping c [])
  | some _ => .error ⟨key, .mapping⟩

/-- The tree without the first entry under a key, if there is one. -/
def remove? (key : String) : Tree → Option Tree
  | mapping c entries =>
    if entries.any (hasKey key) then some (mapping c (entries.eraseP (hasKey key))) else none
  | _ => none

/-! ## Keys and texts -/

variable {t t' v : Tree} {key key' : String} {f g : Change} {entries entries' : List (Tree × Tree)}

@[simp] theorem text?_newScalar (text : String) : (newScalar text).text? = some text := rfl

theorem hasKey_iff {entry : Tree × Tree} : hasKey key entry = true ↔ entry.1.text? = some key := by
  rw [hasKey, decide_eq_true_eq]

theorem hasKey_eq_false_of_ne {entry : Tree × Tree} (h : hasKey key entry = true)
    (hne : key' ≠ key) : hasKey key' entry = false := by
  rw [hasKey_iff] at h
  rw [Bool.eq_false_iff, ne_eq, hasKey_iff, h]
  exact fun heq ↦ hne (Option.some.inj heq).symm

theorem lookupEntries_of_hasKey {entry : Tree × Tree} (rest : List (Tree × Tree))
    (h : hasKey key entry = true) : lookupEntries key (entry :: rest) = some entry.2 := by
  rw [lookupEntries, List.find?_cons_of_pos h]
  rfl

theorem lookupEntries_of_not_hasKey {entry : Tree × Tree} (rest : List (Tree × Tree))
    (h : ¬ hasKey key entry = true) :
    lookupEntries key (entry :: rest) = lookupEntries key rest := by
  rw [lookupEntries, List.find?_cons_of_neg h]
  rfl

theorem lookupEntries_eq_none_iff :
    lookupEntries key entries = none ↔ ∀ entry ∈ entries, ¬ hasKey key entry = true := by
  rw [lookupEntries, Option.map_eq_none_iff, List.find?_eq_none]

/-- What is found under a key stands behind entries without the key. -/
theorem lookupEntries_eq_some_iff :
    lookupEntries key entries = some v ↔ ∃ before k after, entries = before ++ (k, v) :: after ∧
      (∀ entry ∈ before, ¬ hasKey key entry = true) ∧ hasKey key (k, v) = true := by
  constructor
  · intro h
    obtain ⟨⟨k, w⟩, hfound, rfl⟩ := Option.map_eq_some_iff.1 h
    obtain ⟨hkey, before, after, rfl, hbefore⟩ := List.find?_eq_some_iff_append.1 hfound
    exact ⟨before, k, after, rfl, fun entry hmem ↦ by simpa using hbefore entry hmem, hkey⟩
  · rintro ⟨before, k, after, rfl, hbefore, hkey⟩
    rw [lookupEntries, List.find?_append, List.find?_eq_none.2 hbefore, Option.none_or,
      List.find?_cons_of_pos hkey]
    rfl

/-! ## Changes of one entry -/

theorem lookupEntries_updateEntries (h : updateEntries key f entries = .ok entries') :
    ∃ v, f (lookupEntries key entries) = .ok v ∧ lookupEntries key entries' = some v := by
  induction entries generalizing entries' with
  | nil =>
    obtain ⟨v, hv, h⟩ := bind_eq_ok_iff.1 h
    obtain rfl := Except.ok.inj h
    exact ⟨v, hv, lookupEntries_of_hasKey [] (hasKey_iff.2 rfl)⟩
  | cons entry rest ih =>
    rw [updateEntries] at h
    split at h
    · rename_i hentry
      obtain ⟨v, hv, h⟩ := bind_eq_ok_iff.1 h
      obtain rfl := Except.ok.inj h
      rw [lookupEntries_of_hasKey rest hentry]
      exact ⟨v, hv, lookupEntries_of_hasKey rest hentry⟩
    · rename_i hentry
      obtain ⟨rest', hrest, h⟩ := bind_eq_ok_iff.1 h
      obtain rfl := Except.ok.inj h
      rw [lookupEntries_of_not_hasKey rest hentry, lookupEntries_of_not_hasKey rest' hentry]
      exact ih hrest

theorem lookupEntries_updateEntries_of_ne (h : updateEntries key f entries = .ok entries')
    (hne : key' ≠ key) : lookupEntries key' entries' = lookupEntries key' entries := by
  induction entries generalizing entries' with
  | nil =>
    obtain ⟨v, hv, h⟩ := bind_eq_ok_iff.1 h
    obtain rfl := Except.ok.inj h
    have hnew : hasKey key (newScalar key, v) = true := hasKey_iff.2 rfl
    rw [lookupEntries_of_not_hasKey []]
    simp [hasKey_eq_false_of_ne hnew hne]
  | cons entry rest ih =>
    rw [updateEntries] at h
    split at h
    · rename_i hentry
      obtain ⟨v, hv, h⟩ := bind_eq_ok_iff.1 h
      obtain rfl := Except.ok.inj h
      have hother := hasKey_eq_false_of_ne hentry hne
      have hother' : hasKey key' (entry.1, v) = false := hother
      rw [lookupEntries_of_not_hasKey rest (by simp [hother']),
        lookupEntries_of_not_hasKey rest (by simp [hother])]
    · obtain ⟨rest', hrest, h⟩ := bind_eq_ok_iff.1 h
      obtain rfl := Except.ok.inj h
      by_cases hentry : hasKey key' entry = true
      · rw [lookupEntries_of_hasKey rest hentry, lookupEntries_of_hasKey rest' hentry]
      · rw [lookupEntries_of_not_hasKey rest hentry, lookupEntries_of_not_hasKey rest' hentry]
        exact ih hrest

theorem exists_updateEntries (h : f (lookupEntries key entries) = .ok v) :
    ∃ entries', updateEntries key f entries = .ok entries' := by
  induction entries with
  | nil =>
    have hnone : f none = .ok v := h
    exact ⟨[(newScalar key, v)], by rw [updateEntries, hnone]; rfl⟩
  | cons entry rest ih =>
    rw [updateEntries]
    split
    · rename_i hentry
      rw [lookupEntries_of_hasKey rest hentry] at h
      exact ⟨(entry.1, v) :: rest, by rw [h]; rfl⟩
    · rename_i hentry
      rw [lookupEntries_of_not_hasKey rest hentry] at h
      obtain ⟨rest', hrest⟩ := ih h
      exact ⟨entry :: rest', by rw [hrest]; rfl⟩

theorem updateEntries_eq_error {e : ShapeError} (h : f (lookupEntries key entries) = .error e) :
    updateEntries key f entries = .error e := by
  induction entries with
  | nil =>
    have hnone : f none = .error e := h
    rw [updateEntries, hnone]
    rfl
  | cons entry rest ih =>
    rw [updateEntries]
    split
    · rename_i hentry
      rw [lookupEntries_of_hasKey rest hentry] at h
      rw [h]
      rfl
    · rename_i hentry
      rw [lookupEntries_of_not_hasKey rest hentry] at h
      rw [ih h]
      rfl

/-- A change that leaves the value as it is leaves all entries as they are. -/
theorem updateEntries_eq_self (hlookup : lookupEntries key entries = some v)
    (hf : f (some v) = .ok v) : updateEntries key f entries = .ok entries := by
  induction entries with
  | nil => cases hlookup
  | cons entry rest ih =>
    rw [updateEntries]
    split
    · rename_i hentry
      rw [lookupEntries_of_hasKey rest hentry] at hlookup
      obtain rfl := Option.some.inj hlookup
      rw [hf]
      rfl
    · rename_i hentry
      rw [lookupEntries_of_not_hasKey rest hentry] at hlookup
      rw [ih hlookup]
      rfl

theorem updateEntries_congr (h : f (lookupEntries key entries) = g (lookupEntries key entries)) :
    updateEntries key f entries = updateEntries key g entries := by
  induction entries with
  | nil =>
    have hnone : f none = g none := h
    rw [updateEntries, updateEntries, hnone]
  | cons entry rest ih =>
    rw [updateEntries, updateEntries]
    split
    · rename_i hentry
      rw [lookupEntries_of_hasKey rest hentry] at h
      rw [h]
    · rename_i hentry
      rw [lookupEntries_of_not_hasKey rest hentry] at h
      rw [ih h]

theorem updateEntries_updateEntries (h : updateEntries key f entries = .ok entries') (v : Tree) :
    updateEntries key (fun _ ↦ .ok v) entries' = updateEntries key (fun _ ↦ .ok v) entries := by
  induction entries generalizing entries' with
  | nil =>
    obtain ⟨w, -, h⟩ := bind_eq_ok_iff.1 h
    obtain rfl := Except.ok.inj h
    have hnew : hasKey key (newScalar key, w) = true := hasKey_iff.2 rfl
    simp only [updateEntries, if_pos hnew]
  | cons entry rest ih =>
    rw [updateEntries] at h
    split at h
    · rename_i hentry
      obtain ⟨w, -, h⟩ := bind_eq_ok_iff.1 h
      obtain rfl := Except.ok.inj h
      have hentry' : hasKey key (entry.1, w) = true := hentry
      rw [updateEntries, updateEntries, if_pos hentry', if_pos hentry]
    · rename_i hentry
      obtain ⟨rest', hrest, h⟩ := bind_eq_ok_iff.1 h
      obtain rfl := Except.ok.inj h
      rw [updateEntries, updateEntries, if_neg hentry, if_neg hentry, ih hrest]

/-- The value of the first entry under a key is the one that changes. -/
theorem updateEntries_split {before after : List (Tree × Tree)} {k : Tree}
    (hbefore : ∀ entry ∈ before, ¬ hasKey key entry = true) (hkey : hasKey key (k, v) = true)
    (w : Tree) :
    updateEntries key (fun _ ↦ .ok w) (before ++ (k, v) :: after) =
      .ok (before ++ (k, w) :: after) := by
  induction before with
  | nil =>
    rw [List.nil_append, updateEntries, if_pos hkey]
    rfl
  | cons entry before ih =>
    obtain ⟨hentry, hrest⟩ := List.forall_mem_cons.1 hbefore
    rw [List.cons_append, updateEntries, if_neg hentry, ih hrest]
    rfl

theorem updateEntries_of_lookup_none (h : lookupEntries key entries = none) (w : Tree) :
    updateEntries key (fun _ ↦ .ok w) entries = .ok (entries ++ [(newScalar key, w)]) := by
  induction entries with
  | nil => rfl
  | cons entry rest ih =>
    obtain ⟨hentry, hrest⟩ := List.forall_mem_cons.1 (lookupEntries_eq_none_iff.1 h)
    rw [updateEntries, if_neg hentry, ih (lookupEntries_eq_none_iff.2 hrest)]
    rfl

/-! ## Changes of a mapping -/

theorem update_eq_ok_iff :
    t.update key f = .ok t' ↔ ∃ c entries entries', t = mapping c entries ∧
      updateEntries key f entries = .ok entries' ∧ t' = mapping c entries' := by
  constructor
  · intro h
    cases t with
    | mapping c entries =>
      obtain ⟨entries', hentries, h⟩ := bind_eq_ok_iff.1 h
      exact ⟨c, entries, entries', rfl, hentries, (Except.ok.inj h).symm⟩
    | scalar => cases h
    | sequence => cases h
  · rintro ⟨c, entries, entries', rfl, hentries, rfl⟩
    rw [update, hentries]
    rfl

theorem remove?_eq_some_iff :
    t.remove? key = some t' ↔ ∃ c entries, t = mapping c entries ∧
      entries.any (hasKey key) = true ∧ t' = mapping c (entries.eraseP (hasKey key)) := by
  constructor
  · intro h
    cases t with
    | mapping c entries =>
      rw [remove?] at h
      split at h
      · rename_i hany
        exact ⟨c, entries, rfl, hany, (Option.some.inj h).symm⟩
      · cases h
    | scalar => cases h
    | sequence => cases h
  · rintro ⟨c, entries, rfl, hany, rfl⟩
    rw [remove?, if_pos hany]

/-- The changed key holds what the change made. -/
theorem lookup?_update (h : t.update key f = .ok t') :
    ∃ v, f (t.lookup? key) = .ok v ∧ t'.lookup? key = some v := by
  obtain ⟨c, entries, entries', rfl, hentries, rfl⟩ := update_eq_ok_iff.1 h
  exact lookupEntries_updateEntries hentries

/-- Other keys hold what they held before. -/
theorem lookup?_update_of_ne (h : t.update key f = .ok t') (hne : key' ≠ key) :
    t'.lookup? key' = t.lookup? key' := by
  obtain ⟨c, entries, entries', rfl, hentries, rfl⟩ := update_eq_ok_iff.1 h
  exact lookupEntries_updateEntries_of_ne hentries hne

theorem isMapping_update (h : t.update key f = .ok t') : t'.isMapping = true := by
  obtain ⟨c, entries, entries', rfl, hentries, rfl⟩ := update_eq_ok_iff.1 h
  rfl

theorem exists_update (ht : t.isMapping = true) (h : f (t.lookup? key) = .ok v) :
    ∃ t', t.update key f = .ok t' := by
  cases t with
  | mapping c entries =>
    obtain ⟨entries', hentries⟩ := exists_updateEntries h
    exact ⟨_, update_eq_ok_iff.2 ⟨c, entries, entries', rfl, hentries, rfl⟩⟩
  | scalar => cases ht
  | sequence => cases ht

theorem update_of_not_isMapping (ht : t.isMapping = false) :
    t.update key f = .error ⟨key, .mapping⟩ := by
  cases t with
  | mapping => cases ht
  | scalar => rfl
  | sequence => rfl

theorem update_eq_error {e : ShapeError} (ht : t.isMapping = true)
    (h : f (t.lookup? key) = .error e) : t.update key f = .error e := by
  cases t with
  | mapping c entries =>
    have hentries : f (lookupEntries key entries) = .error e := h
    rw [update, updateEntries_eq_error hentries]
    rfl
  | scalar => cases ht
  | sequence => cases ht

theorem update_eq_self (ht : t.isMapping = true) (hlookup : t.lookup? key = some v)
    (hf : f (some v) = .ok v) : t.update key f = .ok t := by
  cases t with
  | mapping c entries => exact update_eq_ok_iff.2 ⟨c, _, _, rfl, updateEntries_eq_self hlookup hf, rfl⟩
  | scalar => cases ht
  | sequence => cases ht

/-- Changes of the same value make the same tree. -/
theorem update_congr (h : f (t.lookup? key) = g (t.lookup? key)) :
    t.update key f = t.update key g := by
  cases t with
  | mapping c entries =>
    have hentries : f (lookupEntries key entries) = g (lookupEntries key entries) := h
    rw [update, update, updateEntries_congr hentries]
  | scalar => rfl
  | sequence => rfl

/-- A second change of a value that does not look at it hides the first. -/
theorem update_update (h : t.update key f = .ok t') (v : Tree) :
    t'.update key (fun _ ↦ .ok v) = t.update key fun _ ↦ .ok v := by
  obtain ⟨c, entries, entries', rfl, hentries, rfl⟩ := update_eq_ok_iff.1 h
  rw [update, update, updateEntries_updateEntries hentries]

end LayeredConfig.Tree
