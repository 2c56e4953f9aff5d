import LayeredConfig.Document.Reader
import LayeredConfig.Proofs.Outcome
import LayeredConfig.Proofs.Text.Lines

/-!
# Lines are read back

A line that was written is read as the line it was, except that a blank line has no indentation.
In the other direction, what a line holds once it was read lies within the line and does not end
in white space, and a comment is blank or starts with a number sign.
-/

namespace LayeredConfig

open Text

/-- A line of comments is blank or starts with a number sign. -/
structure IsCommentLine (text : List Char) : Prop where
  clean : Clean text
  marked : ∀ c ∈ text.head?, c = '#'

theorem isCommentLine_nil : IsCommentLine [] := by
  refine ⟨clean_nil, ?_⟩
  intro c hc
  simp at hc

namespace Line

/-! ## Writing and reading one line -/

/-- A line that can be told from every other kind of line by its text. -/
inductive Legible : Line → Prop
  | comment {indent : Nat} {text : List Char} : IsCommentLine text → Legible (.comment indent text)
  | content {indent : Nat} {first : Char} {rest : List Char} : Clean (first :: rest) →
      isBlank first = false → first ≠ '#' →
      (indent = 0 → first :: rest ≠ ['-', '-', '-'] ∧ first :: rest ≠ ['.', '.', '.']) →
      Legible (.content indent (first :: rest))

/-- A line as it is found in the file. -/
def stored : Line → Line
  | comment _ [] => comment 0 []
  | line => line

theorem dropWhile_replicate_append {first : Char} (indent : Nat) (rest : List Char)
    (hfirst : isBlank first = false) :
    (List.replicate indent ' ' ++ first :: rest).dropWhile (· == ' ') = first :: rest := by
  have hne : first ≠ ' ' := by
    rintro rfl
    exact absurd hfirst (by decide)
  rw [List.dropWhile_append_of_pos, List.dropWhile_cons_of_neg]
  · simpa using hne
  · intro c hc
    simp [List.eq_of_mem_replicate hc]

/-- The white space before a text is its indentation. -/
theorem read_indented {indent : Nat} {first : Char} {rest : List Char}
    (hclean : Clean (first :: rest)) (hfirst : isBlank first = false) :
    read (List.replicate indent ' ' ++ first :: rest) =
      if first = '#' then .line (comment indent (first :: rest))
      else if indent = 0 && (first :: rest = ['-', '-', '-'] || first :: rest = ['.', '.', '.']) then
        .marker
      else .line (content indent (first :: rest)) := by
  have hlength : (List.replicate indent ' ' ++ first :: rest).length - (first :: rest).length =
      indent := by
    simp
  have htab : ¬ (first :: rest).head? = some '\t' := by
    intro h
    obtain rfl := Option.some.inj h
    exact absurd hfirst (by decide)
  unfold read
  simp only [dropWhile_replicate_append indent rest hfirst, hlength,
    trimEnd_eq_self hclean.endsClean, if_neg htab]
  by_cases hmark : first = '#'
  · subst hmark
    rfl
  · rw [if_neg hmark]
    split
    · rename_i hcons
      cases hcons
    · rename_i hcons
      exact absurd (List.cons.inj hcons).1 hmark
    · rfl

theorem read_render {line : Line} (h : line.Legible) : read line.render = .line line.stored := by
  cases h with
  | comment htext =>
    rename_i indent text
    cases text with
    | nil => rfl
    | cons first rest =>
      obtain rfl : first = '#' := htext.marked first rfl
      exact read_indented htext.clean (by decide)
  | content hclean hfirst hmark hmarker =>
    rename_i indent first rest
    rw [render, read_indented hclean hfirst, if_neg hmark, if_neg]
    · rfl
    · rw [Bool.and_eq_true, decide_eq_true_eq, Bool.or_eq_true, decide_eq_true_eq,
        decide_eq_true_eq]
      rintro ⟨hindent, htext | htext⟩
      · exact (hmarker hindent).1 htext
      · exact (hmarker hindent).2 htext

theorem clean_render {line : Line} (h : line.Legible) : Clean line.render := by
  have hblank (indent : Nat) : '\n' ∉ List.replicate indent ' ' := by
    intro hmem
    exact absurd (List.eq_of_mem_replicate hmem) (by decide)
  cases h with
  | comment htext =>
    rename_i indent text
    cases text with
    | nil => exact clean_nil
    | cons first rest => exact Clean.append (hblank indent) htext.clean (List.cons_ne_nil _ _)
  | content hclean => exact Clean.append (hblank _) hclean (List.cons_ne_nil _ _)

/-! ## What a line that was read holds -/

/-- The text of a line lies within it. -/
inductive Tidy : Line → Prop
  | comment {indent : Nat} {text : List Char} : IsCommentLine text → Tidy (.comment indent text)
  | content {indent : Nat} {text : List Char} : Clean text → Tidy (.content indent text)

theorem tidy_of_read {raw : List Char} {line : Line} (hraw : '\n' ∉ raw)
    (h : read raw = .line line) : line.Tidy := by
  have hbody : '\n' ∉ raw.dropWhile (· == ' ') :=
    fun hmem ↦ hraw ((List.dropWhile_sublist _).subset hmem)
  have hclean := clean_trimEnd hbody
  unfold read at h
  simp only at h
  split at h
  · cases h
    exact .comment isCommentLine_nil
  · rename_i rest htext
    cases h
    rw [htext] at hclean ⊢
    refine .comment ⟨hclean, ?_⟩
    intro c hc
    exact (Option.some.inj hc).symm
  · split at h
    · cases h
    · split at h
      · cases h
      · cases h
        exact .content hclean

end Line

namespace Reader

/-! ## All lines of a file -/

/-- Lines as they are found in a file, numbered from `number`. -/
def numbered (number : Nat) : List Line → Source
  | [] => []
  | line :: rest => (number, line.stored) :: numbered (number + 1) rest

theorem numbered_append (number : Nat) (a b : List Line) :
    numbered number (a ++ b) = numbered number a ++ numbered (number + a.length) b := by
  induction a generalizing number with
  | nil => rfl
  | cons line a ih =>
    rw [List.cons_append, numbered, numbered, ih, List.cons_append, List.length_cons]
    congr 3
    omega

theorem sourceOf_render {lines : List Line} (h : ∀ line ∈ lines, line.Legible) (number : Nat) :
    sourceOf number (lines.map Line.render) = .ok (numbered number lines) := by
  induction lines generalizing number with
  | nil => rfl
  | cons line rest ih =>
    have hrest := ih (fun other hmem ↦ h other (List.mem_cons_of_mem line hmem)) (number + 1)
    rw [List.map_cons, sourceOf, Line.read_render (h line List.mem_cons_self)]
    simp only [hrest]
    rfl

/-- Written lines are found again in the text. -/
theorem sourceOf_renderAll {lines : List Line} (h : ∀ line ∈ lines, line.Legible) :
    sourceOf 1 (Text.lines (Line.renderAll lines)) = .ok (numbered 1 lines) := by
  have hclean : ∀ text ∈ lines.map Line.render, Clean text := by
    intro text hmem
    obtain ⟨line, hline, rfl⟩ := List.mem_map.1 hmem
    exact Line.clean_render (h line hline)
  rw [Line.renderAll, lines_unlines hclean, sourceOf_render h]

/-- All lines still to be read hold tidy texts. -/
def Tidy (src : Source) : Prop :=
  ∀ numberedLine ∈ src, numberedLine.2.Tidy

theorem tidy_of_sourceOf {number : Nat} {raws : List (List Char)} {src : Source}
    (hraws : ∀ raw ∈ raws, '\n' ∉ raw) (h : sourceOf number raws = .ok src) : Tidy src := by
  induction raws generalizing number src with
  | nil =>
    obtain rfl := Except.ok.inj h
    intro line hline
    cases hline
  | cons raw rest ih =>
    have hrest : ∀ other ∈ rest, '\n' ∉ other :=
      fun other hmem ↦ hraws other (List.mem_cons_of_mem raw hmem)
    rw [sourceOf] at h
    split at h
    · cases h
    · exact ih hrest h
    · rename_i line hread
      obtain ⟨more, hmore, hsrc⟩ := bind_eq_ok_iff.1 h
      obtain rfl := Except.ok.inj hsrc
      intro other hother
      rcases List.mem_cons.1 hother with rfl | hother
      · exact Line.tidy_of_read (hraws raw List.mem_cons_self) hread
      · exact ih hrest hmore other hother

theorem tidy_of_text {text : List Char} {src : Source}
    (h : sourceOf 1 (Text.lines text) = .ok src) : Tidy src :=
  tidy_of_sourceOf (fun _ ↦ not_mem_of_mem_lines) h

end Reader

end LayeredConfig
