import LayeredConfig.Text.Blank
import LayeredConfig.Text.Lines

/-!
# Trimmed texts and their lines

A text is clean when it lies within one line and does not end in white space. Every end of a
clean text is clean again, so whatever is cut off the front of a line stays clean. Clean texts
written one after the other, each with a line feed behind it, are found again as the lines of the
whole.
-/

namespace LayeredConfig.Text

/-! ## Trimming -/

/-- A text does not end in white space. -/
def EndsClean (text : List Char) : Prop :=
  ∀ c ∈ text.getLast?, isBlank c = false

theorem endsClean_nil : EndsClean [] := by
  intro c hc
  simp at hc

theorem endsClean_append {a b : List Char} (hb : b ≠ []) : EndsClean (a ++ b) ↔ EndsClean b := by
  unfold EndsClean
  rw [List.getLast?_append, List.getLast?_eq_some_getLast hb, Option.some_or]

theorem endsClean_singleton {c : Char} (hc : isBlank c = false) : EndsClean [c] := by
  intro d hd
  obtain rfl : c = d := by simpa using hd
  exact hc

theorem trimEnd_eq_self {text : List Char} (h : EndsClean text) : trimEnd text = text := by
  unfold trimEnd
  cases hr : text.reverse with
  | nil => simp [List.reverse_eq_nil_iff.1 hr]
  | cons c rest =>
    have hlast : text.getLast? = some c := by
      rw [List.getLast?_eq_head?_reverse, hr, List.head?_cons]
    have hc : isBlank c = false := h c hlast
    rw [List.dropWhile_cons_of_neg (by simp [hc]), ← hr, List.reverse_reverse]

theorem endsClean_trimEnd (text : List Char) : EndsClean (trimEnd text) := by
  intro c hc
  unfold trimEnd at hc
  rw [List.getLast?_reverse] at hc
  have hhead := List.head?_dropWhile_not isBlank text.reverse
  rw [Option.mem_def.1 hc] at hhead
  simpa using hhead

theorem endsClean_iff {text : List Char} : EndsClean text ↔ trimEnd text = text :=
  ⟨trimEnd_eq_self, fun h ↦ h ▸ endsClean_trimEnd text⟩

theorem trimStart_cons_of_not_blank {c : Char} {rest : List Char} (hc : isBlank c = false) :
    trimStart (c :: rest) = c :: rest :=
  List.dropWhile_cons_of_neg (by simp [hc])

theorem trimStart_cons_of_blank {c : Char} {rest : List Char} (hc : isBlank c = true) :
    trimStart (c :: rest) = trimStart rest :=
  List.dropWhile_cons_of_pos hc

theorem isBlank_head_trimStart {text rest : List Char} {c : Char}
    (h : trimStart text = c :: rest) : isBlank c = false := by
  have hhead := List.head?_dropWhile_not isBlank text
  unfold trimStart at h
  rw [h] at hhead
  simpa using hhead

theorem trimStart_suffix (text : List Char) : trimStart text <:+ text :=
  List.dropWhile_suffix _

theorem trimEnd_initial (text : List Char) : trimEnd text <+: text := by
  have h := List.dropWhile_suffix (l := text.reverse) isBlank
  rw [← List.reverse_prefix, List.reverse_reverse] at h
  exact h

/-! ## Clean texts -/

/-- A part of one line without white space at its end. -/
structure Clean (text : List Char) : Prop where
  oneLine : '\n' ∉ text
  endsClean : EndsClean text

theorem clean_nil : Clean [] := ⟨List.not_mem_nil, endsClean_nil⟩

theorem Clean.suffix {text part : List Char} (h : Clean text) (hs : part <:+ text) :
    Clean part := by
  obtain ⟨front, rfl⟩ := hs
  refine ⟨fun hmem ↦ h.oneLine (List.mem_append_right front hmem), ?_⟩
  by_cases hpart : part = []
  · rw [hpart]
    exact endsClean_nil
  · exact (endsClean_append hpart).1 h.endsClean

theorem Clean.append {a b : List Char} (ha : '\n' ∉ a) (hb : Clean b) (hne : b ≠ []) :
    Clean (a ++ b) := by
  refine ⟨?_, (endsClean_append hne).2 hb.endsClean⟩
  rw [List.mem_append, not_or]
  exact ⟨ha, hb.oneLine⟩

theorem Clean.append_clean {a b : List Char} (ha : Clean a) (hb : Clean b) : Clean (a ++ b) := by
  by_cases hne : b = []
  · rwa [hne, List.append_nil]
  · exact Clean.append ha.oneLine hb hne

theorem clean_trimEnd {text : List Char} (h : '\n' ∉ text) : Clean (trimEnd text) :=
  ⟨fun hmem ↦ h ((trimEnd_initial text).subset hmem), endsClean_trimEnd text⟩

/-! ## Lines -/

theorem dropReturn_of_clean {text : List Char} (h : EndsClean text) : dropReturn text = text := by
  unfold dropReturn
  split
  · rename_i rest hrev
    have hlast : text.getLast? = some '\r' := by
      rw [List.getLast?_eq_head?_reverse, hrev, List.head?_cons]
    exact absurd (h '\r' hlast) (by decide)
  · rfl

theorem splitLines_append {line : List Char} (h : '\n' ∉ line) (current rest : List Char) :
    splitLines current (line ++ '\n' :: rest) =
      dropReturn (current.reverse ++ line) :: splitLines [] rest := by
  induction line generalizing current with
  | nil => simp [splitLines]
  | cons c line ih =>
    have hc : c ≠ '\n' := fun hc ↦ h (hc ▸ List.mem_cons_self)
    have hline : '\n' ∉ line := fun hmem ↦ h (List.mem_cons_of_mem c hmem)
    rw [List.cons_append, splitLines, ih hline]
    · simp
    · exact hc

theorem lines_unlines {texts : List (List Char)} (h : ∀ text ∈ texts, Clean text) :
    lines (unlines texts) = texts := by
  induction texts with
  | nil => rfl
  | cons text rest ih =>
    have htext : Clean text := h text List.mem_cons_self
    have hrest := ih fun other hmem ↦ h other (List.mem_cons_of_mem text hmem)
    unfold lines unlines at hrest ⊢
    rw [List.flatMap_cons, List.append_assoc, List.singleton_append,
      splitLines_append htext.oneLine, hrest]
    simp [dropReturn_of_clean htext.endsClean]

theorem dropReturn_sublist (text : List Char) : (dropReturn text).Sublist text := by
  unfold dropReturn
  split
  · rename_i rest hrev
    have htext : text = rest.reverse ++ ['\r'] := by
      rw [← List.reverse_reverse text, hrev, List.reverse_cons]
    rw [htext]
    exact List.sublist_append_left _ _
  · exact List.Sublist.refl _

theorem not_mem_of_mem_splitLines {current text line : List Char} (hcurrent : '\n' ∉ current)
    (h : line ∈ splitLines current text) : '\n' ∉ line := by
  fun_induction splitLines current text with
  | case1 current hempty => simp at h
  | case2 current hempty =>
    obtain rfl : line = current.reverse := by simpa using h
    simpa using hcurrent
  | case3 current rest ih =>
    rcases List.mem_cons.1 h with rfl | hrest
    · intro hmem
      have := (dropReturn_sublist current.reverse).subset hmem
      exact hcurrent (by simpa using this)
    · exact ih List.not_mem_nil hrest
  | case4 current c rest hc ih =>
    refine ih ?_ h
    rw [List.mem_cons, not_or]
    exact ⟨fun heq ↦ hc heq.symm, hcurrent⟩

/-- No line of a text holds a line feed. -/
theorem not_mem_of_mem_lines {text line : List Char} (h : line ∈ lines text) : '\n' ∉ line :=
  not_mem_of_mem_splitLines List.not_mem_nil h

end LayeredConfig.Text
