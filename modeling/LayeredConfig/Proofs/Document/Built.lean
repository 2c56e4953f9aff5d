import LayeredConfig.Proofs.Document.RoundTrip
import LayeredConfig.Proofs.Document.TreePath

/-!
# Trees that were built by storing texts

A tree that was built has comments nowhere but above its keys, its keys are written in the style
of a new text, and its values in a style that their texts allow. Storing texts keeps a tree built.
A built tree is read back as itself, styles and comments included, unless one of its keys is
empty: a new empty text is plain, but an empty key is written and read between double quotes.
-/

namespace LayeredConfig.Tree

open Text Inline

/-! ## Built trees -/

/-- What the texts of a tree are there for. -/
inductive Part where
  | comment
  | key
  | value

/-- A key that was made for an allowed text, with nothing but comment lines above it. -/
inductive BuiltKey (allowed : Part → String → Prop) : Tree → Prop
  | mk {head : List String} {text : String} (comments : ∀ line ∈ head, IsCommentLine line.toList)
      (commentsAllowed : ∀ line ∈ head, allowed .comment line) (isAllowed : allowed .key text) :
      BuiltKey allowed (.scalar ⟨head, none, []⟩ text (Scalar.styleFor text.toList .plain))

inductive Built (allowed : Part → String → Prop) : Tree → Prop
  | scalar {text : String} {style : ScalarStyle} (stable : Scalar.styleFor text.toList style = style)
      (isAllowed : allowed .value text) : Built allowed (.scalar {} text style)
  | mapping {entries : List (Tree × Tree)} (keys : ∀ entry ∈ entries, BuiltKey allowed entry.1)
      (values : ∀ entry ∈ entries, Built allowed entry.2) : Built allowed (.mapping {} entries)

mutual

/-- The texts of all keys at any depth. -/
def allKeys : Tree → List String
  | scalar .. => []
  | mapping _ entries => entryKeys entries
  | sequence _ items => itemKeys items

def entryKeys : List (Tree × Tree) → List String
  | [] => []
  | (key, value) :: rest => key.text?.toList ++ allKeys value ++ entryKeys rest

def itemKeys : List Tree → List String
  | [] => []
  | item :: rest => allKeys item ++ itemKeys rest

end

variable {allowed : Part → String → Prop} {t t' v : Tree} {key text : String} {path : List String}
  {entries entries' : List (Tree × Tree)} {f : Change}

theorem mem_entryKeys {name : String} : name ∈ entryKeys entries ↔
    ∃ entry ∈ entries, entry.1.text? = some name ∨ name ∈ entry.2.allKeys := by
  induction entries with
  | nil => simp [entryKeys]
  | cons entry rest ih =>
    simp [entryKeys, ih, or_assoc]

theorem BuiltKey.isKey (h : BuiltKey allowed t) : t.IsKey := by
  cases h with
  | mk comments => exact .scalar (Comments.inner_mk comments fun _ hmem ↦ by cases hmem)

theorem Built.writable (h : Built allowed t) : t.Writable := by
  induction h with
  | scalar => exact .scalar Comments.inner_none
  | mapping keys _ ih =>
    exact .mapping Comments.inner_none (fun entry hmem ↦ (keys entry hmem).isKey) ih

theorem Built.isFile (h : Built allowed t) (hmap : t.isMapping = true) : t.IsFile := by
  cases h with
  | scalar => cases hmap
  | mapping keys values =>
    exact .mapping Comments.inner_none.toLegible (fun entry hmem ↦ (keys entry hmem).isKey)
      fun entry hmem ↦ (values entry hmem).writable

theorem Built.mono {allowed' : Part → String → Prop} (h : Built allowed t)
    (hallowed : ∀ part text, allowed part text → allowed' part text) : Built allowed' t := by
  induction h with
  | scalar stable isAllowed => exact .scalar stable (hallowed _ _ isAllowed)
  | mapping keys _ ih =>
    refine .mapping (fun entry hmem ↦ ?_) ih
    have hkey := keys entry hmem
    generalize entry.1 = key at hkey ⊢
    cases hkey with
    | mk comments commentsAllowed isAllowed =>
      exact .mk comments (fun line hline ↦ hallowed _ _ (commentsAllowed line hline))
        (hallowed _ _ isAllowed)

/-- All keys of a built tree are allowed. -/
theorem Built.allowed_of_mem (h : Built allowed t) : ∀ name ∈ t.allKeys, allowed .key name := by
  induction h with
  | scalar => exact List.forall_mem_nil _
  | mapping keys _ ih =>
    intro name hname
    obtain ⟨entry, hmem, htext | hbelow⟩ := mem_entryKeys.1 hname
    · have hkey := keys entry hmem
      generalize entry.1 = key at hkey htext
      cases hkey with
      | mk _ _ isAllowed => exact Option.some.inj htext ▸ isAllowed
    · exact ih entry hmem name hbelow

/-! ## Storing texts -/

/-- A change that makes built values of built values. -/
def Builds (allowed : Part → String → Prop) (f : Change) : Prop :=
  ∀ o v, (∀ u ∈ o, Built allowed u) → f o = .ok v → Built allowed v

theorem builtKey_newScalar (h : allowed .key key) : BuiltKey allowed (newScalar key) :=
  .mk (List.forall_mem_nil _) (List.forall_mem_nil _) h

theorem built_newScalar (h : allowed .value text) : Built allowed (newScalar text) :=
  .scalar (styleFor_styleFor _ _) h

theorem builds_storeText (htext : allowed .value text) (key : String) :
    Builds allowed (storeText key text) := by
  intro o v ho h
  cases o with
  | none =>
    obtain rfl := Except.ok.inj h
    exact built_newScalar htext
  | some old =>
    cases ho old rfl with
    | scalar =>
      obtain rfl := Except.ok.inj h
      exact .scalar (styleFor_styleFor _ _) htext
    | mapping => cases h

theorem builds_inside {g : Tree → Except ShapeError Tree}
    (hg : ∀ u v, Built allowed u → g u = .ok v → Built allowed v) :
    Builds allowed (inside key g) := by
  have hempty : Built allowed (.mapping {} []) := .mapping (List.forall_mem_nil _) (List.forall_mem_nil _)
  intro o v ho h
  unfold inside at h
  split at h
  · exact hg _ v hempty h
  · exact hg _ v (ho _ rfl) h
  · cases ho _ rfl with
    | scalar => exact hg _ v hempty h
  · cases h

theorem built_updateEntries (hkey : allowed .key key) (hf : Builds allowed f)
    (hkeys : ∀ entry ∈ entries, BuiltKey allowed entry.1)
    (hvalues : ∀ entry ∈ entries, Built allowed entry.2)
    (h : updateEntries key f entries = .ok entries') :
    (∀ entry ∈ entries', BuiltKey allowed entry.1) ∧ ∀ entry ∈ entries', Built allowed entry.2 := by
  induction entries generalizing entries' with
  | nil =>
    obtain ⟨v, hv, h⟩ := bind_eq_ok_iff.1 h
    obtain rfl := Except.ok.inj h
    exact ⟨List.forall_mem_singleton.2 (builtKey_newScalar hkey),
      List.forall_mem_singleton.2 (hf none v (fun _ hmem ↦ by cases hmem) hv)⟩
  | cons entry rest ih =>
    obtain ⟨hfirst, hkeys⟩ := List.forall_mem_cons.1 hkeys
    obtain ⟨hvalue, hvalues⟩ := List.forall_mem_cons.1 hvalues
    rw [updateEntries] at h
    split at h
    · obtain ⟨v, hv, h⟩ := bind_eq_ok_iff.1 h
      obtain rfl := Except.ok.inj h
      have hv : Built allowed v := hf _ v (fun u hu ↦ Option.some.inj hu ▸ hvalue) hv
      exact ⟨List.forall_mem_cons.2 ⟨hfirst, hkeys⟩, List.forall_mem_cons.2 ⟨hv, hvalues⟩⟩
    · obtain ⟨rest', hrest, h⟩ := bind_eq_ok_iff.1 h
      obtain rfl := Except.ok.inj h
      obtain ⟨hkeys', hvalues'⟩ := ih hkeys hvalues hrest
      exact ⟨List.forall_mem_cons.2 ⟨hfirst, hkeys'⟩, List.forall_mem_cons.2 ⟨hvalue, hvalues'⟩⟩

theorem Built.update (h : Built allowed t) (hkey : allowed .key key) (hf : Builds allowed f)
    (ht : t.update key f = .ok t') : Built allowed t' := by
  cases h with
  | scalar => cases ht
  | mapping keys values =>
    obtain ⟨entries', hentries, ht⟩ := bind_eq_ok_iff.1 ht
    obtain rfl := Except.ok.inj ht
    obtain ⟨hkeys, hvalues⟩ := built_updateEntries hkey hf keys values hentries
    exact .mapping hkeys hvalues

/-- Storing an allowed text below allowed keys keeps a tree built. -/
theorem Built.storeAt (h : Built allowed t) (hpath : ∀ name ∈ key :: path, allowed .key name)
    (htext : allowed .value text) (ht : storeAt text key path t = .ok t') : Built allowed t' := by
  induction path generalizing key t t' with
  | nil => exact h.update (hpath key List.mem_cons_self) (builds_storeText htext key) ht
  | cons next path ih =>
    obtain ⟨hkey, hpath⟩ := List.forall_mem_cons.1 hpath
    exact h.update hkey (builds_inside fun _ _ hu hv ↦ ih hu hpath hv) ht

/-! ## Reading back -/

/-- A key that was made is read back as itself unless it is empty. -/
theorem rereadKey_eq_self_iff (h : BuiltKey allowed t) : rereadKey t = t ↔ t.text? ≠ some "" := by
  cases h with
  | mk =>
    rename_i head text _ _ _
    rw [rereadKey, text?, scalar.injEq]
    simp only [true_and, ne_eq, Option.some.injEq]
    constructor
    · rintro hstyle rfl
      exact writtenStyle_eq_plain hstyle
    · intro hne
      have hwritten := styleFor_eq text.toList (Scalar.styleFor text.toList .plain)
      rw [styleFor_styleFor, if_neg (by simp [hne])] at hwritten
      exact hwritten.symm

mutual

theorem reread_eq_self_iff : ∀ t : Tree, Built allowed t → (reread t = t ↔ "" ∉ allKeys t)
  | .scalar .., h => by
    cases h with
    | scalar stable =>
      rw [reread, stable, allKeys]
      simp
  | .mapping _ entries, h => by
    cases h with
    | mapping keys values =>
      rw [reread, mapping.injEq, allKeys, rereadEntries_eq_self_iff entries keys values]
      simp
  | .sequence .., h => by cases h

theorem rereadEntries_eq_self_iff : ∀ entries : List (Tree × Tree),
    (∀ entry ∈ entries, BuiltKey allowed entry.1) → (∀ entry ∈ entries, Built allowed entry.2) →
    (rereadEntries entries = entries ↔ "" ∉ entryKeys entries)
  | [], _, _ => by simp [rereadEntries, entryKeys]
  | (key, value) :: rest, hkeys, hvalues => by
    obtain ⟨hkey, hkeys⟩ := List.forall_mem_cons.1 hkeys
    obtain ⟨hvalue, hvalues⟩ := List.forall_mem_cons.1 hvalues
    rw [rereadEntries, List.cons.injEq, Prod.mk.injEq, rereadKey_eq_self_iff hkey,
      reread_eq_self_iff value hvalue, rereadEntries_eq_self_iff rest hkeys hvalues, entryKeys]
    simp [and_assoc]

end

/-- A built file is read back like any built mapping. -/
theorem rereadFile_eq_reread (h : Built allowed t) : rereadFile t = reread t := by
  cases h with
  | scalar stable => rw [reread, stable, rereadFile]; simp
  | mapping keys values =>
    rename_i entries
    rcases entries with _ | ⟨⟨key, value⟩, rest⟩
    · rfl
    · cases keys _ List.mem_cons_self with
      | mk => rfl

/-- A built file is read back as itself exactly when none of its keys is empty. -/
theorem rereadFile_eq_self_iff (h : Built allowed t) : rereadFile t = t ↔ "" ∉ t.allKeys := by
  rw [rereadFile_eq_reread h, reread_eq_self_iff t h]

end LayeredConfig.Tree
