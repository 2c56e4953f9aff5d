import Mathlib.Data.List.Forall2
import LayeredConfig.Proofs.Document.DistinctKeys
import LayeredConfig.Proofs.Document.SameTexts
import LayeredConfig.Settings.Table

/-!
# Mappings that stand for tables

A mapping whose keys are distinct stands for a list of named things, entry by entry and in the same
order. Storing a text and removing a key do to the mapping what they do to the table.
-/

namespace LayeredConfig

namespace Table

variable {α : Type} {name : String} {g : Option α → α} {items : List (String × α)}

/-! ## Lists of named things -/

/-- Changes the first thing of a name; a new thing comes last. -/
def upsert (name : String) (g : Option α → α) : List (String × α) → List (String × α)
  | [] => [(name, g none)]
  | item :: rest =>
    if item.1 = name then (name, g (some item.2)) :: rest else item :: upsert name g rest

theorem upsert_of_not_mem (h : name ∉ items.map Prod.fst) :
    upsert name g items = items ++ [(name, g none)] := by
  induction items with
  | nil => rfl
  | cons item rest ih =>
    rw [List.map_cons, List.mem_cons, not_or] at h
    rw [upsert, if_neg (Ne.symm h.1), ih h.2, List.cons_append]

/-- Where no name is repeated, all things of a name are the first one. -/
theorem upsert_of_mem (hmem : name ∈ items.map Prod.fst) (hnodup : (items.map Prod.fst).Nodup) :
    upsert name g items =
      items.map fun item ↦ if item.1 = name then (name, g (some item.2)) else item := by
  induction items with
  | nil => cases hmem
  | cons item rest ih =>
    obtain ⟨hitem, hrest⟩ := List.nodup_cons.1 hnodup
    rw [upsert, List.map_cons]
    split
    · rename_i hname
      have hkept : ∀ other ∈ rest,
          (if other.1 = name then (name, g (some other.2)) else other) = other := by
        intro other hother
        rw [if_neg]
        rintro hsame
        exact hitem (hname.trans hsame.symm ▸ List.mem_map_of_mem hother)
      rw [List.map_congr_left hkept, List.map_id'']
      exact fun _ ↦ rfl
    · rename_i hname
      rw [List.map_cons, List.mem_cons] at hmem
      rw [ih (hmem.resolve_left (Ne.symm hname)) hrest]

theorem nodup_upsert (h : (items.map Prod.fst).Nodup) :
    ((upsert name g items).map Prod.fst).Nodup := by
  by_cases hmem : name ∈ items.map Prod.fst
  · have hnames : (upsert name g items).map Prod.fst = items.map Prod.fst := by
      rw [upsert_of_mem hmem h, List.map_map]
      refine List.map_congr_left fun item _ ↦ ?_
      rw [Function.comp_apply]
      split
      · rename_i hname
        exact hname.symm
      · rfl
    rw [hnames]
    exact h
  · rw [upsert_of_not_mem hmem, List.map_append, List.map_singleton, ← List.concat_eq_append,
      List.nodup_concat]
    exact ⟨hmem, h⟩

theorem mem_names_upsert {other : String} (h : other ∈ (upsert name g items).map Prod.fst) :
    other = name ∨ other ∈ items.map Prod.fst := by
  induction items with
  | nil => exact .inl (List.mem_singleton.1 h)
  | cons item rest ih =>
    rw [upsert] at h
    split at h
    · rename_i hname
      rw [List.map_cons, List.mem_cons] at h ⊢
      exact h.imp_right .inr
    · rw [List.map_cons, List.mem_cons] at h ⊢
      rcases h with h | h
      · exact .inr (.inl h)
      · exact (ih h).imp_right .inr

theorem any_name_iff : (items.any fun item ↦ item.1 == name) = true ↔ name ∈ items.map Prod.fst := by
  rw [List.any_eq_true, List.mem_map]
  simp only [beq_iff_eq]

theorem lookup_upsert_self : (upsert name g items).lookup name = some (g (items.lookup name)) := by
  induction items with
  | nil => simp [upsert]
  | cons item rest ih =>
    rw [upsert]
    split
    · rename_i hname
      have hbeq : (name == item.1) = true := beq_iff_eq.2 hname.symm
      rw [List.lookup_cons_self, List.lookup_cons, hbeq]
    · rename_i hname
      have hbeq : (name == item.1) = false := beq_eq_false_iff_ne.2 (Ne.symm hname)
      rw [List.lookup_cons, hbeq, List.lookup_cons, hbeq, ih]

theorem lookup_upsert_of_ne {other : String} (hne : other ≠ name) :
    (upsert name g items).lookup other = items.lookup other := by
  induction items with
  | nil => simp [upsert, List.lookup_cons, List.lookup_nil, beq_eq_false_iff_ne.2 hne]
  | cons item rest ih =>
    rw [upsert]
    split
    · rename_i hname
      have hbeq : (other == item.1) = false := beq_eq_false_iff_ne.2 (hname ▸ hne)
      rw [List.lookup_cons, List.lookup_cons, beq_eq_false_iff_ne.2 hne, hbeq]
    · rw [List.lookup_cons, List.lookup_cons, ih]

/-! ## Tables -/

variable {t : Table} {text : String}

theorem insert_eq (h : t.names.Nodup) (name text : String) :
    t.insert name text = ⟨upsert name (fun _ ↦ text) t.entries⟩ := by
  rw [insert, contains]
  split
  · rename_i hmem
    rw [upsert_of_mem (any_name_iff.1 hmem) h]
  · rename_i hmem
    rw [upsert_of_not_mem fun hname ↦ hmem (any_name_iff.2 hname)]

theorem nodup_insert (h : t.names.Nodup) (name text : String) : (t.insert name text).names.Nodup := by
  rw [insert_eq h]
  exact nodup_upsert h

theorem get?_insert_self (h : t.names.Nodup) (name text : String) :
    (t.insert name text).get? name = some text := by
  rw [insert_eq h]
  exact lookup_upsert_self

theorem get?_insert_of_ne (h : t.names.Nodup) {other : String} (hne : other ≠ name) (text : String) :
    (t.insert name text).get? other = t.get? other := by
  rw [insert_eq h]
  exact lookup_upsert_of_ne hne

theorem nodup_filter (h : (items.map Prod.fst).Nodup) (name : String) :
    ((items.filter (·.1 ≠ name)).map Prod.fst).Nodup :=
  h.sublist (List.filter_sublist.map _)

end Table

namespace Tree

variable {α : Type} {R : Tree → α → Prop} {entries entries' : List (Tree × Tree)}
  {items : List (String × α)} {key name text : String} {f : Change} {g : Option α → α} {v : Tree}
  {table : Table}

/-! ## Entries of a list of named things -/

/-- The entries of a mapping stand for named things, in the same order. -/
def Lists (R : Tree → α → Prop) (entries : List (Tree × Tree)) (items : List (String × α)) : Prop :=
  List.Forall₂ (fun entry item ↦ entry.1.text? = some item.1 ∧ R entry.2 item.2) entries items

theorem hasKey_of_text {entry : Tree × Tree} {key' : String} (h : entry.1.text? = some key') :
    hasKey key entry = true ↔ key' = key := by
  rw [hasKey_iff, h, Option.some.injEq]

theorem Lists.keyTexts_eq (h : Lists R entries items) : keyTexts entries = items.map Prod.fst := by
  induction h with
  | nil => rfl
  | cons hentry _ ih => rw [keyTexts_cons, hentry.1, ih, List.map_cons]; rfl

theorem Lists.lookup (h : Lists R entries items) (key : String) :
    lookupEntries key entries = none ∧ items.lookup key = none ∨
      ∃ v a, lookupEntries key entries = some v ∧ items.lookup key = some a ∧ R v a := by
  induction h with
  | nil => exact .inl ⟨rfl, rfl⟩
  | @cons entry item rest items' hentry _ ih =>
    by_cases hkey : hasKey key entry = true
    · have hbeq : (key == item.1) = true := beq_iff_eq.2 ((hasKey_of_text hentry.1).1 hkey).symm
      rw [lookupEntries_of_hasKey _ hkey, List.lookup_cons, hbeq]
      exact .inr ⟨_, _, rfl, rfl, hentry.2⟩
    · have hbeq : (key == item.1) = false :=
        beq_eq_false_iff_ne.2 fun heq ↦ hkey ((hasKey_of_text hentry.1).2 heq.symm)
      rw [lookupEntries_of_not_hasKey _ hkey, List.lookup_cons, hbeq]
      exact ih

/-- A change that succeeds on each of the things changes one of them, or adds one. -/
theorem Lists.updateEntries (h : Lists R entries items) (key : String)
    (hnone : ∃ w, f none = .ok w ∧ R w (g none))
    (hsome : ∀ v a, R v a → ∃ w, f (some v) = .ok w ∧ R w (g (some a))) :
    ∃ entries', updateEntries key f entries = .ok entries' ∧
      Lists R entries' (Table.upsert key g items) := by
  induction h with
  | nil =>
    obtain ⟨w, hw, hR⟩ := hnone
    refine ⟨[(newScalar key, w)], ?_, .cons ⟨rfl, hR⟩ .nil⟩
    rw [Tree.updateEntries, hw]
    rfl
  | @cons entry item rest items' hentry hrest ih =>
    rw [Tree.updateEntries, Table.upsert]
    by_cases hkey : hasKey key entry = true
    · obtain ⟨w, hw, hR⟩ := hsome _ _ hentry.2
      have hname := (hasKey_of_text hentry.1).1 hkey
      refine ⟨(entry.1, w) :: rest, ?_, ?_⟩
      · rw [if_pos hkey, hw]
        rfl
      · rw [if_pos hname]
        exact .cons ⟨hasKey_iff.1 hkey, hR⟩ hrest
    · obtain ⟨entries', hentries, hlists⟩ := ih
      refine ⟨entry :: entries', ?_, ?_⟩
      · rw [if_neg hkey, hentries]
        rfl
      · rw [if_neg fun hname ↦ hkey ((hasKey_of_text hentry.1).2 hname)]
        exact .cons hentry hlists

theorem Lists.any_hasKey (h : Lists R entries items) (name : String) :
    entries.any (hasKey name) = true ↔ name ∈ items.map Prod.fst := by
  induction h with
  | nil => simp
  | cons hentry _ ih =>
    rw [List.any_cons, Bool.or_eq_true, hasKey_of_text hentry.1, ih, List.map_cons, List.mem_cons,
      eq_comm]

theorem Lists.eraseP (h : Lists R entries items) (hnodup : (items.map Prod.fst).Nodup) (name : String) :
    Lists R (entries.eraseP (hasKey name)) (items.filter (·.1 ≠ name)) := by
  induction h with
  | nil => exact .nil
  | @cons entry item rest items' hentry hrest ih =>
    obtain ⟨hitem, hnodup'⟩ := List.nodup_cons.1 hnodup
    by_cases hkey : hasKey name entry = true
    · have hname := (hasKey_of_text hentry.1).1 hkey
      have hkept : items'.filter (·.1 ≠ name) = items' := by
        refine List.filter_eq_self.2 fun other hother ↦ decide_eq_true ?_
        rintro rfl
        exact hitem (hname ▸ List.mem_map_of_mem hother)
      rw [List.eraseP_cons_of_pos hkey, List.filter_cons, if_neg (by simpa using hname), hkept]
      exact hrest
    · have hname : item.1 ≠ name := fun heq ↦ hkey ((hasKey_of_text hentry.1).2 heq)
      rw [List.eraseP_cons_of_neg hkey, List.filter_cons, if_pos (by simpa using hname)]
      exact .cons hentry (ih hnodup')

/-! ## Mappings of texts -/

/-- A mapping of texts that stands for a table. -/
structure Tabulates (v : Tree) (table : Table) : Prop where
  isMapping : v.isMapping = true
  lists : Lists (fun w text ↦ w.text? = some text) v.entries table.entries
  nodup : table.names.Nodup

theorem tabulates_empty (c : Comments) : Tabulates (mapping c []) {} :=
  ⟨rfl, .nil, List.nodup_nil⟩

namespace Tabulates

theorem valueAt?_eq (h : Tabulates v table) (key : String) : valueAt? [key] v = table.get? key := by
  rw [valueAt?, Tree.lookup?, Table.get?]
  rcases h.lists.lookup key with ⟨hnone, hnone'⟩ | ⟨w, text, hw, htext, hR⟩
  · rw [hnone, hnone']
    rfl
  · rw [hw, htext]
    exact hR

/-- Storing a text in the mapping stores it in the table. -/
theorem storeText (h : Tabulates v table) (key text : String) :
    ∃ v', v.update key (storeText key text) = .ok v' ∧ Tabulates v' (table.insert key text) := by
  have hsome : ∀ w old, w.text? = some old →
      ∃ w', Tree.storeText key text (some w) = .ok w' ∧ w'.text? = some text := by
    intro w old hw
    cases w with
    | scalar c _ style => exact ⟨_, rfl, rfl⟩
    | mapping => cases hw
    | sequence => cases hw
  obtain ⟨entries', hentries, hlists⟩ :=
    h.lists.updateEntries (g := fun _ ↦ text) key ⟨_, rfl, rfl⟩ hsome
  cases v with
  | mapping c entries =>
    refine ⟨mapping c entries', update_eq_ok_iff.2 ⟨c, _, _, rfl, hentries, rfl⟩, rfl, ?_, ?_⟩
    · rw [Table.insert_eq h.nodup]
      exact hlists
    · exact Table.nodup_insert h.nodup key text
  | scalar => cases h.isMapping
  | sequence => cases h.isMapping

/-- Removing a key from the mapping removes it from the table. -/
theorem remove? (h : Tabulates v table) (name : String) :
    v.remove? name = none ∧ table.contains name = false ∨
      ∃ v', v.remove? name = some v' ∧ table.contains name = true ∧
        Tabulates v' (table.erase name) := by
  cases v with
  | mapping c entries =>
    have hany : entries.any (hasKey name) = true ↔ table.contains name = true :=
      (h.lists.any_hasKey name).trans Table.any_name_iff.symm
    rw [Tree.remove?]
    split
    · rename_i hmem
      refine .inr ⟨_, rfl, hany.1 hmem, rfl, h.lists.eraseP h.nodup name, ?_⟩
      exact Table.nodup_filter h.nodup name
    · rename_i hmem
      exact .inl ⟨rfl, Bool.eq_false_iff.2 fun hcontains ↦ hmem (hany.2 hcontains)⟩
  | scalar => cases h.isMapping
  | sequence => cases h.isMapping

theorem foldl_addTexts {found : List (String × String)} {items : List (String × String)}
    (h : Lists (fun w text ↦ w.text? = some text) entries items)
    (hnodup : ((found ++ items).map Prod.fst).Nodup) :
    entries.foldl addTexts found = found ++ items := by
  induction h generalizing found with
  | nil => rw [List.foldl_nil, List.append_nil]
  | @cons entry item rest items' hentry _ ih =>
    have hnew : ¬ (found.any fun other ↦ decide (other.1 = item.1)) = true := by
      rw [List.map_append, List.nodup_append] at hnodup
      rw [List.any_eq_true]
      rintro ⟨other, hother, hsame⟩
      exact hnodup.2.2 _ (List.mem_map_of_mem hother) _ List.mem_cons_self (of_decide_eq_true hsame)
    have hadded : addTexts found entry = found ++ [item] := by
      rw [addTexts, hentry.1, hentry.2]
      exact if_neg hnew
    have hnodup' : ((found ++ [item] ++ items').map Prod.fst).Nodup := by
      rw [List.append_assoc, List.singleton_append]
      exact hnodup
    rw [List.foldl_cons, hadded, ih hnodup', List.append_assoc, List.singleton_append]

theorem texts_eq (h : Tabulates v table) : v.texts = table.entries := by
  have hnodup : (([] ++ table.entries).map Prod.fst).Nodup := h.nodup
  exact foldl_addTexts h.lists hnodup

end Tabulates

end Tree

end LayeredConfig
