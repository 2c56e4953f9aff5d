import LayeredConfig.Proofs.Document.TreeEdit
import LayeredConfig.Settings.Environment

/-!
# Texts at paths

Storing a text at the end of a path of keys opens every mapping on the way. The text is then
found at that path, storing it again changes nothing, and at every other path the same text is
found as before, where an empty text counts as none.
-/

namespace LayeredConfig.Tree

/-- The text at the end of a path of keys. -/
def valueAt? : List String → Tree → Option String
  | [], t => t.text?
  | key :: path, t => t.lookup? key >>= valueAt? path

/-- Stores a text at the end of a path that begins with `key`. -/
def storeAt (text key : String) : List String → Tree → Except ShapeError Tree
  | [], t => t.update key (storeText key text)
  | next :: path, t => t.update key (inside key (storeAt text next path))

variable {t t' u u' v : Tree} {text key key' : String} {path path' : List String}
  {g : Tree → Except ShapeError Tree} {o : Option Tree}

theorem valueAt?_of_not_isMapping (h : t.isMapping = false) (key : String) (path : List String) :
    valueAt? (key :: path) t = none := by
  cases t with
  | mapping => cases h
  | scalar => rfl
  | sequence => rfl

theorem isMapping_of_text? (h : t.text? = some text) : t.isMapping = false := by
  cases t with
  | scalar => rfl
  | mapping => cases h
  | sequence => rfl

/-! ## What is made of one value -/

theorem styleFor_styleFor (text : List Char) (style : ScalarStyle) :
    Scalar.styleFor text (Scalar.styleFor text style) = Scalar.styleFor text style := by
  cases style with
  | plain =>
    rw [Scalar.styleFor]
    split
    · rename_i hplain
      rw [Scalar.styleFor, if_pos hplain]
    · rfl
  | singleQuoted =>
    rw [Scalar.styleFor]
    split
    · rfl
    · rename_i hcontrol
      rw [Scalar.styleFor, if_neg hcontrol]
  | doubleQuoted => rfl

/-- What was overwritten or made is a scalar with the text, and stays when it is stored again.
There was no mapping before. -/
theorem storeText_eq_ok (h : storeText key text o = .ok v) :
    v.text? = some text ∧ storeText key text (some v) = .ok v ∧
      ∀ next path, o >>= valueAt? (next :: path) = none := by
  cases o with
  | none =>
    obtain rfl := Except.ok.inj h
    exact ⟨rfl, by rw [newScalar, storeText, styleFor_styleFor], fun _ _ ↦ rfl⟩
  | some old =>
    cases old with
    | scalar c oldText style =>
      obtain rfl := Except.ok.inj h
      exact ⟨rfl, by rw [storeText, styleFor_styleFor], fun _ _ ↦ rfl⟩
    | mapping => cases h
    | sequence => cases h

/-- Before it is changed, the opened mapping holds what the value held, which was no text. -/
theorem inside_eq_ok (h : inside key g o = .ok v) :
    ∃ u, u.isMapping = true ∧ g u = .ok v ∧ nonEmpty? (o >>= text?) = none ∧
      ∀ next path, valueAt? (next :: path) u = o >>= valueAt? (next :: path) := by
  cases o with
  | none => exact ⟨mapping {} [], rfl, h, rfl, fun _ _ ↦ rfl⟩
  | some old =>
    cases old with
    | mapping c entries => exact ⟨mapping c entries, rfl, h, rfl, fun _ _ ↦ rfl⟩
    | sequence => cases h
    | scalar c oldText style =>
      unfold inside at h
      split at h
      · rename_i heq
        cases heq
      · rename_i heq
        cases heq
      · rename_i heq
        cases heq
        exact ⟨mapping _ [], rfl, h, rfl, fun _ _ ↦ rfl⟩
      · cases h

theorem inside_of_isMapping (h : v.isMapping = true) : inside key g (some v) = g v := by
  cases v with
  | mapping => rfl
  | scalar => cases h
  | sequence => cases h

theorem isMapping_storeAt (h : t.storeAt text key path = .ok t') : t'.isMapping = true := by
  cases path with
  | nil => exact isMapping_update h
  | cons next path => exact isMapping_update h

/-! ## One step of a path -/

theorem storeAt_of_inside (hu : ∀ g, inside key g (t.lookup? key) = g u)
    (hstore : storeAt text key' path u = .ok u') (ht : t.update key (fun _ ↦ .ok u') = .ok t') :
    storeAt text key (key' :: path) t = .ok t' := by
  rw [storeAt, ← ht]
  apply update_congr
  rw [hu, hstore]

theorem storeAt_error_of_inside {e : ShapeError} (ht : t.isMapping = true)
    (hu : ∀ g, inside key g (t.lookup? key) = g u) (hstore : storeAt text key' path u = .error e) :
    storeAt text key (key' :: path) t = .error e := by
  rw [storeAt]
  apply update_eq_error ht
  rw [hu, hstore]

/-! ## The three laws -/

/-- A text that was stored is found. -/
theorem valueAt?_storeAt (h : storeAt text key path t = .ok t') :
    valueAt? (key :: path) t' = some text := by
  induction path generalizing key t t' with
  | nil =>
    obtain ⟨v, hv, hlookup⟩ := lookup?_update h
    rw [valueAt?, hlookup]
    exact (storeText_eq_ok hv).1
  | cons next path ih =>
    obtain ⟨v, hv, hlookup⟩ := lookup?_update h
    obtain ⟨u, -, hu, -, -⟩ := inside_eq_ok hv
    rw [valueAt?, hlookup]
    exact ih hu

/-- Storing a text again changes nothing. -/
theorem storeAt_storeAt (h : storeAt text key path t = .ok t') :
    storeAt text key path t' = .ok t' := by
  induction path generalizing key t t' with
  | nil =>
    obtain ⟨v, hv, hlookup⟩ := lookup?_update h
    exact update_eq_self (isMapping_update h) hlookup (storeText_eq_ok hv).2.1
  | cons next path ih =>
    obtain ⟨v, hv, hlookup⟩ := lookup?_update h
    obtain ⟨u, -, hu, -, -⟩ := inside_eq_ok hv
    refine update_eq_self (isMapping_update h) hlookup ?_
    rw [inside_of_isMapping (isMapping_storeAt hu)]
    exact ih hu

/-- Where another key is on the way, nothing changes. -/
theorem valueAt?_update_of_ne {f : Change} (h : t.update key f = .ok t') (hne : key' ≠ key) :
    valueAt? (key' :: path) t' = valueAt? (key' :: path) t := by
  rw [valueAt?, valueAt?, lookup?_update_of_ne h hne]

/-- At other paths the same texts are found as before. -/
theorem nonEmpty?_valueAt?_storeAt (h : storeAt text key path t = .ok t')
    (hne : key' :: path' ≠ key :: path) :
    nonEmpty? (valueAt? (key' :: path') t') = nonEmpty? (valueAt? (key' :: path') t) := by
  induction path generalizing key key' path' t t' with
  | nil =>
    by_cases hkey : key' = key
    · subst hkey
      obtain ⟨v, hv, hlookup⟩ := lookup?_update h
      cases path' with
      | nil => exact absurd rfl hne
      | cons next path' =>
        obtain ⟨htext, -, hold⟩ := storeText_eq_ok hv
        have hnot := isMapping_of_text? htext
        have hnew : valueAt? (next :: path') v = none := valueAt?_of_not_isMapping hnot next path'
        rw [valueAt?, valueAt?, hlookup, hold next path']
        exact congrArg nonEmpty? hnew
    · rw [valueAt?_update_of_ne h hkey]
  | cons next path ih =>
    by_cases hkey : key' = key
    · subst hkey
      obtain ⟨v, hv, hlookup⟩ := lookup?_update h
      obtain ⟨u, -, hu, hempty, hold⟩ := inside_eq_ok hv
      cases path' with
      | nil =>
        have hmap : v.isMapping = true := isMapping_storeAt hu
        have hnew : nonEmpty? (some v >>= text?) = none := by
          cases v with
          | scalar => cases hmap
          | mapping => rfl
          | sequence => cases hmap
        rw [valueAt?, valueAt?, hlookup]
        exact hnew.trans hempty.symm
      | cons next' path' =>
        have hne' : next' :: path' ≠ next :: path := fun heq ↦ hne (congrArg _ heq)
        rw [valueAt?, valueAt?, hlookup, ← hold next' path']
        exact ih hu hne'
    · rw [valueAt?_update_of_ne h hkey]

/-- At a path that does not lead to the stored text nor on the way to it, nothing changes. -/
theorem valueAt?_storeAt_of_not_prefix (h : storeAt text key path t = .ok t')
    (hne : ¬ key' :: path' <+: key :: path) :
    valueAt? (key' :: path') t' = valueAt? (key' :: path') t := by
  induction path generalizing key key' path' t t' with
  | nil =>
    by_cases hkey : key' = key
    · subst hkey
      obtain ⟨v, hv, hlookup⟩ := lookup?_update h
      cases path' with
      | nil => exact absurd (List.prefix_refl _) hne
      | cons next path' =>
        obtain ⟨htext, -, hold⟩ := storeText_eq_ok hv
        have hnot := isMapping_of_text? htext
        rw [valueAt?, valueAt?, hlookup, hold next path']
        exact valueAt?_of_not_isMapping hnot next path'
    · rw [valueAt?_update_of_ne h hkey]
  | cons next path ih =>
    by_cases hkey : key' = key
    · subst hkey
      obtain ⟨v, hv, hlookup⟩ := lookup?_update h
      obtain ⟨u, -, hu, -, hold⟩ := inside_eq_ok hv
      cases path' with
      | nil => exact absurd (List.prefix_append [key'] _) hne
      | cons next' path' =>
        have hne' : ¬ next' :: path' <+: next :: path :=
          fun hprefix ↦ hne ((List.prefix_cons_inj key').2 hprefix)
        rw [valueAt?, valueAt?, hlookup, ← hold next' path']
        exact ih hu hne'
    · rw [valueAt?_update_of_ne h hkey]

end LayeredConfig.Tree
