import Mathlib
import LayeredConfig.Proofs.Document.IdleLines

/-!
# Errors point at lines with content

Reading fails at a line that the text has, and never at a blank line or a comment line.
-/

namespace LayeredConfig

namespace Reader

open Text Inline

/-! ## The lines a reading fails at -/

/-- The numbers of the lines of content. -/
def contentNumbers : Source → List Nat
  | [] => []
  | (_, .comment ..) :: rest => contentNumbers rest
  | (number, .content ..) :: rest => number :: contentNumbers rest

theorem contentNumbers_of_next? {src : Source} {step : Step} (h : next? src = some step) :
    contentNumbers src = step.number :: contentNumbers step.rest := by
  induction h using next?_some_induction with
  | content number indent text rest => rfl
  | comment number indent text rest step h ih => exact ih

/-- A reading goes no further than these lines: it leaves only such lines behind, and it fails at
none but them. -/
def Within {α : Type} {bound : Nat} (numbers : List Nat) :
    Except SyntaxError (Parsed α bound) → Prop
  | .ok parsed => contentNumbers parsed.rest ⊆ numbers
  | .error e => e.line ∈ numbers

section

variable {α β : Type} {bound bound' : Nat} {numbers : List Nat}

theorem Within.bind {result : Except SyntaxError (Parsed α bound)}
    {next : Parsed α bound → Except SyntaxError (Parsed β bound')} (h : Within numbers result)
    (hnext : ∀ parsed, contentNumbers parsed.rest ⊆ numbers → Within numbers (next parsed)) :
    Within numbers (result >>= next) := by
  cases result with
  | error e => exact h
  | ok parsed => exact hnext parsed h

theorem within_onLine {number : Nat} (read : Except SyntaxFault α)
    {next : α → Except SyntaxError (Parsed β bound)} (h : number ∈ numbers)
    (hnext : ∀ found, Within numbers (next found)) :
    Within numbers (onLine number read >>= next) := by
  cases read with
  | error fault => exact h
  | ok found => exact hnext found

end

mutual

theorem within_entries {indent : Nat} {src : Source} {numbers : List Nat}
    (h : contentNumbers src ⊆ numbers) : Within numbers (entries indent src) := by
  cases hnext : next? src with
  | none =>
    rw [entries_of_none hnext]
    exact h
  | some step =>
    have hlt := weight_of_next? hnext
    -- The entries may end before this line, and then it is left behind.
    have hall := h
    rw [entries_of_next? hnext]
    rw [contentNumbers_of_next? hnext, List.cons_subset] at h
    split
    · exact hall
    split
    · exact h.1
    split
    · exact h.1
    refine within_onLine _ h.1 fun found ↦ ?_
    cases found with
    | none => exact h.1
    | some key =>
      refine (within_value h.1 h.2).bind fun first hfirst ↦ ?_
      have hle := first.le
      exact (within_entries hfirst).bind fun more hmore ↦ hmore
termination_by (weight src, 0)

theorem within_value {indent number : Nat} {text : List Char} {src : Source} {numbers : List Nat}
    (hnumber : number ∈ numbers) (h : contentNumbers src ⊆ numbers) :
    Within numbers (value indent text number src) := by
  unfold value
  cases placement text with
  | inline => exact within_onLine _ hnumber fun found ↦ h
  | below comment =>
    dsimp only
    split
    · split
      · exact (within_items h).bind fun found hfound ↦ hfound
      · exact (within_nested h).bind fun found hfound ↦ hfound
    · exact h
termination_by (weight src, 2)

theorem within_nested {indent : Nat} {src : Source} {numbers : List Nat}
    (h : contentNumbers src ⊆ numbers) : Within numbers (nested indent src) := by
  unfold nested
  split
  · split
    · exact h
    split
    · exact (within_items h).bind fun found hfound ↦ hfound
    · exact (within_entries h).bind fun found hfound ↦ hfound
  · exact h
termination_by (weight src, 1)

theorem within_items {indent : Nat} {src : Source} {numbers : List Nat}
    (h : contentNumbers src ⊆ numbers) : Within numbers (items indent src) := by
  cases hnext : next? src with
  | none =>
    rw [items_of_none hnext]
    exact h
  | some step =>
    have hlt := weight_of_next? hnext
    have hall := h
    rw [contentNumbers_of_next? hnext, List.cons_subset] at h
    cases hbody : itemBody? step.text with
    | none =>
      rw [items_of_no_dash hnext hbody]
      split
      · exact hall
      split
      · exact h.1
      · exact hall
    | some body =>
      rw [items_of_dash hnext hbody]
      split
      · exact hall
      split
      · exact h.1
      refine (within_item h.1 h.2).bind fun first hfirst ↦ ?_
      have hle := first.le
      exact (within_items hfirst).bind fun more hmore ↦ hmore
termination_by (weight src, 0)

theorem within_item {indent : Nat} {step : Step} {body : List Char}
    {hbody : body.length < step.text.length} {numbers : List Nat} (hnumber : step.number ∈ numbers)
    (h : contentNumbers step.rest ⊆ numbers) : Within numbers (item indent step body hbody) := by
  unfold item
  refine within_onLine _ hnumber fun start ↦ ?_
  cases start with
  | below comment => exact (within_nested h).bind fun found hfound ↦ hfound
  | key => exact (within_entries (List.cons_subset.2 ⟨hnumber, h⟩)).bind fun found hfound ↦ hfound
  | inline found => exact h
termination_by (weight step.rest + 2 * step.text.length, 0)
decreasing_by
  · exact Prod.Lex.left _ _ (by omega)
  · exact Prod.Lex.left _ _ (by simp only [weight, lineWeight]; omega)

end

/-! ## The lines of a file -/

/-- The line under a number, counted from `number`, holds more than a comment. -/
def HoldsContent (raws : List (List Char)) (number line : Nat) : Prop :=
  number ≤ line ∧ ∃ raw, raws[line - number]? = some raw ∧ ¬ Line.Idle raw

section

variable {raws : List (List Char)} {raw : List Char} {number : Nat}

theorem holdsContent_head (h : ∀ indent text, Line.read raw ≠ .line (.comment indent text)) :
    HoldsContent (raw :: raws) number number := by
  refine ⟨Nat.le_refl _, raw, by rw [Nat.sub_self]; rfl, fun hidle ↦ ?_⟩
  obtain ⟨indent, hread⟩ := Line.read_comment_iff.1 hidle
  exact h _ _ hread

theorem HoldsContent.cons {line : Nat} (h : HoldsContent raws (number + 1) line) :
    HoldsContent (raw :: raws) number line := by
  obtain ⟨hle, found, hfound, hidle⟩ := h
  refine ⟨Nat.le_of_succ_le hle, found, ?_, hidle⟩
  have hindex : line - number = line - (number + 1) + 1 := by omega
  rw [hindex, List.getElem?_cons_succ, hfound]

theorem holdsContent_of_error {e : SyntaxError} (h : sourceOf number raws = .error e) :
    HoldsContent raws number e.line := by
  induction raws generalizing number with
  | nil => cases h
  | cons raw raws ih =>
    rw [sourceOf] at h
    split at h
    · rename_i hread
      obtain rfl := Except.error.inj h
      exact holdsContent_head fun indent text hcomment ↦ by rw [hread] at hcomment; cases hcomment
    · exact (ih h).cons
    · cases hrest : sourceOf (number + 1) raws with
      | error e' =>
        rw [hrest] at h
        obtain rfl := Except.error.inj h
        exact (ih hrest).cons
      | ok src =>
        rw [hrest] at h
        cases h

theorem holdsContent_of_mem {src : Source} (h : sourceOf number raws = .ok src) {line : Nat}
    (hline : line ∈ contentNumbers src) : HoldsContent raws number line := by
  induction raws generalizing number src with
  | nil =>
    obtain rfl := Except.ok.inj h
    cases hline
  | cons raw raws ih =>
    rw [sourceOf] at h
    split at h
    · cases h
    · exact (ih h hline).cons
    · rename_i first hread
      obtain ⟨rest, hrest, h⟩ := bind_eq_ok_iff.1 h
      obtain rfl := Except.ok.inj h
      cases first with
      | comment indent text => exact (ih hrest hline).cons
      | content indent text =>
        rcases List.mem_cons.1 hline with rfl | hline
        · exact holdsContent_head fun indent text hcomment ↦ by
            rw [hread] at hcomment
            cases hcomment
        · exact (ih hrest hline).cons

end

theorem mem_of_root_error {step : Step} {src : Source} {e : SyntaxError}
    (hnext : next? src = some step) (h : root step src = .error e) :
    e.line ∈ contentNumbers src := by
  have hnumber : step.number ∈ contentNumbers src := by
    rw [contentNumbers_of_next? hnext]
    exact List.mem_cons_self
  unfold root at h
  split at h
  · obtain rfl := Except.error.inj h
    exact hnumber
  split at h
  · cases hread : inlineValue step.text with
    | error fault =>
      rw [hread] at h
      obtain rfl := Except.error.inj h
      exact hnumber
    | ok found =>
      rw [hread] at h
      cases h
  · have hwithin : Within (contentNumbers src) (entries step.indent src) :=
      within_entries (List.Subset.refl _)
    cases hread : entries step.indent src with
    | error e' =>
      rw [hread] at h hwithin
      obtain rfl := Except.error.inj h
      exact hwithin
    | ok found =>
      rw [hread] at h
      cases h

theorem subset_of_root {step : Step} {src rest : Source} {tree : Tree}
    (hnext : next? src = some step) (h : root step src = .ok (tree, rest)) :
    contentNumbers rest ⊆ contentNumbers src := by
  unfold root at h
  split at h
  · cases h
  split at h
  · obtain ⟨found, -, h⟩ := bind_eq_ok_iff.1 h
    obtain ⟨-, rfl⟩ := Prod.mk.inj (Except.ok.inj h)
    rw [contentNumbers_of_next? hnext]
    exact List.subset_cons_self _ _
  · obtain ⟨parsed, hread, h⟩ := bind_eq_ok_iff.1 h
    obtain ⟨-, rfl⟩ := Prod.mk.inj (Except.ok.inj h)
    have hwithin : Within (contentNumbers src) (entries step.indent src) :=
      within_entries (List.Subset.refl _)
    rwa [hread] at hwithin

/-- A text that cannot be read has a line with content at which reading fails. -/
theorem holdsContent_of_read {text : List Char} {e : SyntaxError} (h : read text = .error e) :
    HoldsContent (lines text) 1 e.line := by
  unfold read at h
  cases hsrc : sourceOf 1 (lines text) with
  | error e' =>
    rw [hsrc] at h
    obtain rfl := Except.error.inj h
    exact holdsContent_of_error hsrc
  | ok src =>
    refine holdsContent_of_mem hsrc ?_
    rw [hsrc, ok_bind] at h
    split at h
    · cases h
    · rename_i step hnext
      cases hroot : root step src with
      | error e' =>
        rw [hroot] at h
        obtain rfl := Except.error.inj h
        exact mem_of_root_error hnext hroot
      | ok found =>
        rw [hroot, ok_bind] at h
        dsimp only at h
        split at h
        · rename_i last hlast
          obtain rfl := Except.error.inj h
          refine subset_of_root hnext hroot ?_
          rw [contentNumbers_of_next? hlast]
          exact List.mem_cons_self
        · cases h

end Reader

end LayeredConfig
