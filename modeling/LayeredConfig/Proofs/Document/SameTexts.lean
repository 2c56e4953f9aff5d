import LayeredConfig.Proofs.Document.HiddenKeys
import LayeredConfig.Proofs.Document.Rereading
import LayeredConfig.Proofs.Document.Simulation

/-!
# What is found in a tree

Comments and quoting say nothing about the texts of a tree, so trees that differ in no more than
that hold the same text at every path. The scalar entries of a mapping make up a table.
-/

namespace LayeredConfig

/-! ## The first text under a key -/

section

variable {α : Type} {keyOf textOf : α → Option String} {key : String} {items : List α} {item : α}
  {found : List (String × String)}

/-- Adds the text of an item to a table under its key, unless the key is there. -/
def addFirst (keyOf textOf : α → Option String) (found : List (String × String)) (item : α) :
    List (String × String) :=
  match keyOf item, textOf item with
  | some key, some text => if found.any (·.1 = key) then found else found ++ [(key, text)]
  | _, _ => found

/-- The text of an item, if the item has this key. -/
def textUnder? (keyOf textOf : α → Option String) (key : String) (item : α) : Option String :=
  if keyOf item = some key then textOf item else none

theorem textUnder?_of_key (h : keyOf item = some key) :
    textUnder? keyOf textOf key item = textOf item :=
  if_pos h

theorem textUnder?_of_ne (h : keyOf item ≠ some key) : textUnder? keyOf textOf key item = none :=
  if_neg h

theorem lookup_eq_none_iff_not_mem : found.lookup key = none ↔ key ∉ found.map Prod.fst := by
  rw [List.lookup_eq_none_iff, List.mem_map, not_exists]
  refine forall_congr' fun other ↦ ?_
  rw [bne_iff_ne, not_and, ne_comm]

theorem lookup_addFirst (found : List (String × String)) (item : α) :
    (addFirst keyOf textOf found item).lookup key =
      (found.lookup key).or (textUnder? keyOf textOf key item) := by
  unfold addFirst
  split
  · rename_i name text hname htext
    by_cases hkey : name = key
    · subst hkey
      rw [textUnder?_of_key hname, htext]
      split
      · rename_i hany
        obtain ⟨other, hother, hsame⟩ := List.any_eq_true.1 hany
        have hmem : name ∈ found.map Prod.fst :=
          of_decide_eq_true hsame ▸ List.mem_map_of_mem hother
        obtain ⟨old, hold⟩ := Option.ne_none_iff_exists'.1 fun hnone ↦
          lookup_eq_none_iff_not_mem.1 hnone hmem
        rw [hold, Option.some_or]
      · rw [List.lookup_append, List.lookup_cons, beq_self_eq_true]
    · rw [textUnder?_of_ne (by rw [hname]; simpa using hkey), Option.or_none]
      split
      · rfl
      · rw [List.lookup_append, List.lookup_cons, beq_false_of_ne (Ne.symm hkey)]
        exact Option.or_none
  · rename_i hnot
    have hnone : textUnder? keyOf textOf key item = none := by
      by_cases hkey : keyOf item = some key
      · rw [textUnder?_of_key hkey]
        cases htext : textOf item with
        | none => rfl
        | some text => exact absurd htext (hnot key text hkey)
      · exact textUnder?_of_ne hkey
    rw [hnone, Option.or_none]

/-- The table that is made of items holds the first text under each key. -/
theorem lookup_foldl_addFirst (items : List α) (found : List (String × String)) :
    (items.foldl (addFirst keyOf textOf) found).lookup key =
      (found.lookup key).or (items.findSome? (textUnder? keyOf textOf key)) := by
  induction items generalizing found with
  | nil => rw [List.foldl_nil, List.findSome?_nil, Option.or_none]
  | cons item rest ih =>
    rw [List.foldl_cons, ih, lookup_addFirst, Option.or_assoc, List.findSome?_cons]
    cases textUnder? keyOf textOf key item <;> rfl

theorem findSome?_textUnder?_eq_none_iff :
    items.findSome? (textUnder? keyOf textOf key) = none ↔
      ∀ item ∈ items, keyOf item = some key → textOf item = none := by
  rw [List.findSome?_eq_none_iff]
  refine forall₂_congr fun item _ ↦ ⟨fun h hkey ↦ ?_, fun h ↦ ?_⟩
  · rwa [textUnder?_of_key hkey] at h
  · by_cases hkey : keyOf item = some key
    · rw [textUnder?_of_key hkey, h hkey]
    · exact textUnder?_of_ne hkey

/-- The first item under a key decides, if it holds a text. -/
theorem findSome?_textUnder?_split {before after : List α} {text : String}
    (hbefore : ∀ other ∈ before, keyOf other ≠ some key) (hkey : keyOf item = some key)
    (htext : textOf item = some text) :
    (before ++ item :: after).findSome? (textUnder? keyOf textOf key) = some text :=
  List.findSome?_eq_some_iff.2 ⟨before, item, after, rfl, (textUnder?_of_key hkey).trans htext,
    fun other hmem ↦ textUnder?_of_ne (hbefore other hmem)⟩

end

namespace Tree

variable {t t' u v : Tree} {key : String} {path exclude : List String}
  {entries : List (Tree × Tree)}

/-! ## Bare trees -/

theorem text?_bare (t : Tree) : t.bare.text? = t.text? := by
  cases t <;> rw [bare] <;> rfl

theorem lookupEntries_bareEntries (key : String) (entries : List (Tree × Tree)) :
    lookupEntries key (bareEntries entries) = (lookupEntries key entries).map bare := by
  induction entries with
  | nil => rfl
  | cons entry rest ih =>
    obtain ⟨name, value⟩ := entry
    have hkey : hasKey key (name.bare, value.bare) = hasKey key (name, value) := by
      rw [hasKey, hasKey, text?_bare]
    rw [bareEntries]
    by_cases hentry : hasKey key (name, value) = true
    · rw [lookupEntries_of_hasKey _ hentry, lookupEntries_of_hasKey _ (hkey.trans hentry)]
      rfl
    · rw [lookupEntries_of_not_hasKey _ hentry, lookupEntries_of_not_hasKey _ (hkey ▸ hentry), ih]

theorem lookup?_bare (t : Tree) (key : String) : t.bare.lookup? key = (t.lookup? key).map bare := by
  cases t with
  | mapping c entries =>
    rw [bare]
    exact lookupEntries_bareEntries key entries
  | scalar =>
    rw [bare]
    rfl
  | sequence =>
    rw [bare]
    rfl

theorem valueAt?_bare (path : List String) (t : Tree) : valueAt? path t.bare = valueAt? path t := by
  induction path generalizing t with
  | nil => exact text?_bare t
  | cons key path ih =>
    rw [valueAt?, valueAt?, lookup?_bare]
    cases t.lookup? key with
    | none => rfl
    | some v => exact ih v

/-- Trees that differ in comments and quoting hold the same texts. -/
theorem valueAt?_of_bare (h : t'.bare = t.bare) (path : List String) :
    valueAt? path t' = valueAt? path t := by
  rw [← valueAt?_bare path t', h, valueAt?_bare]

theorem lookup?_of_bare (h : t'.bare = t.bare) (hnone : t.lookup? key = none) :
    t'.lookup? key = none := by
  have hbare := lookup?_bare t' key
  rw [h, lookup?_bare, hnone] at hbare
  exact Option.map_eq_none_iff.1 hbare.symm

/-! ## Hidden keys -/

theorem lookup?_without_of_mem (hkey : key ∈ exclude) (t : Tree) :
    (t.without exclude).lookup? key = none := by
  cases t with
  | mapping c entries =>
    refine lookupEntries_eq_none_iff.2 fun entry hmem hentry ↦ ?_
    have hshown := (List.mem_filter.1 hmem).2
    rw [isExcluded_of_mem hkey hentry] at hshown
    cases hshown
  | scalar => rfl
  | sequence => rfl

theorem valueAt?_without (hkey : key ∉ exclude) (path : List String) (t : Tree) :
    valueAt? (key :: path) (t.without exclude) = valueAt? (key :: path) t := by
  rw [valueAt?, valueAt?, lookup?_without hkey]

theorem isFile_without (h : t.IsFile) (exclude : List String) : (t.without exclude).IsFile := by
  cases h with
  | mapping hc hkeys hvalues =>
    exact .mapping hc (fun entry hmem ↦ hkeys entry (List.mem_filter.1 hmem).1)
      fun entry hmem ↦ hvalues entry (List.mem_filter.1 hmem).1

/-- What can be stored where some keys are hidden can be stored in the whole tree. -/
theorem storeAt_of_without {text : String} (hkey : key ∉ exclude)
    (h : storeAt text key path (t.without exclude) = .ok u) :
    ∃ t', storeAt text key path t = .ok t' ∧ t'.without exclude = u := by
  have hupdate : ∀ f : Change, (t.without exclude).update key f = .ok u →
      ∃ t', t.update key f = .ok t' ∧ t'.without exclude = u := by
    intro f hu
    obtain ⟨v, hv, -⟩ := lookup?_update hu
    rw [lookup?_without hkey] at hv
    obtain ⟨c, entries, -, heq, -, -⟩ := update_eq_ok_iff.1 hu
    have hmap : t.isMapping = true := by
      rw [← isMapping_without exclude, heq]
      rfl
    obtain ⟨t', ht'⟩ := exists_update hmap hv
    exact ⟨t', ht', Except.ok.inj ((update_without hkey ht').symm.trans hu)⟩
  cases path with
  | nil => exact hupdate _ h
  | cons next path => exact hupdate _ h

/-! ## Tables -/

/-- Adds the texts of an entry to a table, unless the key is there. -/
def addTexts (found : List (String × String)) (entry : Tree × Tree) : List (String × String) :=
  match entry.1.text?, entry.2.text? with
  | some key, some value =>
    if found.any (·.1 = key) then found else found ++ [(key, value)]
  | _, _ => found

/-- The scalar entries of a mapping; of repeated keys the first counts. -/
def texts (t : Tree) : List (String × String) :=
  t.entries.foldl addTexts []

theorem lookup_texts_eq (t : Tree) (key : String) :
    t.texts.lookup key = t.entries.findSome? (textUnder? (·.1.text?) (·.2.text?) key) :=
  lookup_foldl_addFirst t.entries []

/-- A table without entries holds no text. -/
theorem valueAt?_of_texts_eq_nil (h : t.texts = []) (key : String) : valueAt? [key] t = none := by
  have hnone := (lookup_texts_eq t key).symm.trans (congrArg (List.lookup key) h)
  cases hlookup : t.lookup? key with
  | none => rw [valueAt?, hlookup, Option.bind_eq_bind, Option.bind_none]
  | some v =>
    obtain ⟨before, k, after, hentries, -, hkey⟩ := lookupEntries_eq_some_iff.1 hlookup
    have hmem : (k, v) ∈ t.entries := hentries ▸ List.mem_append_right _ List.mem_cons_self
    rw [valueAt?, hlookup, Option.bind_eq_bind, Option.bind_some]
    exact findSome?_textUnder?_eq_none_iff.1 hnone (k, v) hmem (hasKey_iff.1 hkey)

theorem foldl_addTexts_bareEntries (entries : List (Tree × Tree)) (found : List (String × String)) :
    (bareEntries entries).foldl addTexts found = entries.foldl addTexts found := by
  induction entries generalizing found with
  | nil => rfl
  | cons entry rest ih =>
    obtain ⟨name, value⟩ := entry
    have hentry : addTexts found (name.bare, value.bare) = addTexts found (name, value) := by
      rw [addTexts, addTexts, text?_bare, text?_bare]
    rw [bareEntries, List.foldl_cons, List.foldl_cons, hentry, ih]

theorem texts_bare (t : Tree) : t.bare.texts = t.texts := by
  cases t with
  | mapping c entries =>
    rw [bare]
    exact foldl_addTexts_bareEntries entries []
  | scalar =>
    rw [bare]
    rfl
  | sequence =>
    rw [bare]
    rfl

/-- Trees that differ in comments and quoting have the same table. -/
theorem texts_of_bare (h : t'.bare = t.bare) : t'.texts = t.texts := by
  rw [← texts_bare, h, texts_bare]

/-- The text of the first entry under a key is in the table. -/
theorem lookup_texts {text : String} (hlookup : t.lookup? key = some v) (htext : v.text? = some text) :
    t.texts.lookup key = some text := by
  obtain ⟨before, k, after, hentries, hbefore, hkey⟩ := lookupEntries_eq_some_iff.1 hlookup
  rw [lookup_texts_eq, hentries]
  exact findSome?_textUnder?_split (fun other hmem heq ↦ hbefore other hmem (hasKey_iff.2 heq))
    (hasKey_iff.1 hkey) htext

end Tree

namespace Document

open LayeredConfig.Tree

variable {d : Document} {t : Tree} {map : NodeId} {places : List NodeId}

theorem HangEntries.foldl_snapshot {trees : List (Tree × Tree)} {entries : List (NodeId × NodeId)}
    (h : HangEntries d trees entries places) (found : List (String × String)) :
    entries.foldl (addFirst (d.scalar? ·.1) (d.scalar? ·.2)) found = trees.foldl addTexts found := by
  induction entries generalizing trees places found with
  | nil =>
    cases h
    rfl
  | cons entry rest ih =>
    cases h with
    | cons hkey hvalue hrest =>
      rw [List.foldl_cons, List.foldl_cons, ← ih hrest, addFirst, hkey.scalar?_eq, hvalue.scalar?_eq,
        addTexts]

/-- The table of a mapping is that of its tree. -/
theorem Hangs.snapshot_eq (h : Hangs d t map places) : d.snapshot map = t.texts := by
  cases h with
  | mapping node below =>
    rw [Document.snapshot, entries_eq node, texts]
    exact below.foldl_snapshot []
  | scalar node =>
    rw [Document.snapshot, Document.entries, node]
    rfl
  | sequence node =>
    rw [Document.snapshot, Document.entries, node]
    rfl

end Document

end LayeredConfig
