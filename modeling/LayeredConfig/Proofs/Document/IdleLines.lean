import Mathlib
import LayeredConfig.Proofs.Document.Comments

/-!
# Lines without content

A line is idle when nothing but a comment stands on it, or nothing at all. What is read from a
text is told by its lines of content and by the comments between them, wherever the lines are
numbered from and whether or not a line feed stands behind the last one.
-/

namespace LayeredConfig

open Text

namespace Text

/-! ## Closed texts -/

/-- Every line of the text ends with a line feed. -/
def IsClosed (text : List Char) : Prop :=
  text = [] ∨ text.getLast? = some '\n'

instance (text : List Char) : Decidable (IsClosed text) :=
  inferInstanceAs (Decidable (_ ∨ _))

/-- The text with the line feed that its last line may lack. -/
def closed (text : List Char) : List Char :=
  if IsClosed text then text else text ++ ['\n']

theorem splitLines_append_closed {front : List Char} (h : front.getLast? = some '\n')
    (current back : List Char) :
    splitLines current (front ++ back) = splitLines current front ++ lines back := by
  fun_induction splitLines current front with
  | case1 current hempty => cases h
  | case2 current hempty => cases h
  | case3 current rest ih =>
    rw [List.cons_append, splitLines]
    cases rest with
    | nil => rfl
    | cons c rest =>
      rw [ih (by rwa [List.getLast?_cons_cons] at h), List.cons_append]
  | case4 current c rest hc ih =>
    rw [List.cons_append, splitLines]
    · cases rest with
      | nil => exact absurd (Option.some.inj h) hc
      | cons d rest => exact ih (by rwa [List.getLast?_cons_cons] at h)
    · exact hc

/-- The lines of a closed text stay when a text is written behind it. -/
theorem lines_append {front : List Char} (h : IsClosed front) (back : List Char) :
    lines (front ++ back) = lines front ++ lines back := by
  rcases h with rfl | h
  · rfl
  · exact splitLines_append_closed h [] back

theorem trimEnd_append_of_blank {c : Char} (hc : isBlank c = true) (text : List Char) :
    trimEnd (text ++ [c]) = trimEnd text := by
  rw [trimEnd, List.reverse_append, List.reverse_singleton, List.singleton_append,
    List.dropWhile_cons_of_pos hc, trimEnd]

theorem trimEnd_eq_nil_iff {text : List Char} :
    trimEnd text = [] ↔ ∀ c ∈ text, isBlank c = true := by
  rw [trimEnd, List.reverse_eq_nil_iff, List.dropWhile_eq_nil_iff]
  simp only [List.mem_reverse]

theorem head?_trimEnd {text : List Char} {c : Char} (hc : isBlank c = false) :
    (trimEnd text).head? = some c ↔ text.head? = some c := by
  obtain ⟨back, hback⟩ := trimEnd_initial text
  constructor
  · intro h
    obtain ⟨rest, hrest⟩ := List.head?_eq_some_iff.1 h
    rw [← hback, hrest]
    rfl
  · intro h
    obtain ⟨rest, rfl⟩ := List.head?_eq_some_iff.1 h
    cases htrim : trimEnd (c :: rest) with
    | nil =>
      have hblank := trimEnd_eq_nil_iff.1 htrim c List.mem_cons_self
      rw [hc] at hblank
      cases hblank
    | cons d rest' =>
      rw [htrim] at hback
      rw [(List.cons.inj hback).1]
      rfl

end Text

namespace Line

/-! ## Lines without content -/

/-- Only white space, or spaces and a number sign with any text behind it. -/
def Idle (raw : List Char) : Prop :=
  (∀ c ∈ raw, isBlank c = true) ∨ (raw.dropWhile (· == ' ')).head? = some '#'

instance (raw : List Char) : Decidable (Idle raw) :=
  decidable_of_iff (raw.all isBlank = true ∨ (raw.dropWhile (· == ' ')).head? = some '#') (by
    rw [Idle, List.all_eq_true])

/-- What is recorded of a line without content: nothing of a blank one. -/
def remark (raw : List Char) : List Char :=
  trimEnd (raw.dropWhile (· == ' '))

theorem remark_eq_nil_iff {raw : List Char} : remark raw = [] ↔ ∀ c ∈ raw, isBlank c = true := by
  rw [remark, trimEnd_eq_nil_iff]
  constructor
  · intro h c hc
    rw [← List.takeWhile_append_dropWhile (p := (· == ' ')) (l := raw), List.mem_append] at hc
    rcases hc with hspace | hbody
    · have hc : c = ' ' := by simpa using List.mem_takeWhile_imp hspace
      rw [hc]
      decide
    · exact h c hbody
  · exact fun h c hc ↦ h c ((List.dropWhile_sublist _).subset hc)

/-- A line is read as a comment exactly when it has no content. -/
theorem read_comment_iff {raw : List Char} :
    Idle raw ↔ ∃ indent, read raw = .line (.comment indent (remark raw)) := by
  rw [Idle, ← remark_eq_nil_iff, ← head?_trimEnd (by decide : isBlank '#' = false)]
  change remark raw = [] ∨ (remark raw).head? = some '#' ↔ _
  constructor
  · rintro (h | h)
    · refine ⟨0, ?_⟩
      rw [h, read]
      change trimEnd _ = _ at h
      simp only [h]
    · obtain ⟨rest, hrest⟩ := List.head?_eq_some_iff.1 h
      refine ⟨raw.length - (raw.dropWhile (· == ' ')).length, ?_⟩
      rw [hrest, read]
      change trimEnd _ = _ at hrest
      simp only [hrest]
  · rintro ⟨indent, h⟩
    unfold read at h
    simp only at h
    split at h
    · rename_i hnil
      exact .inl hnil
    · rename_i rest hmark
      refine .inr ?_
      rw [remark, hmark]
      rfl
    · split at h
      · cases h
      · split at h
        · cases h
        · cases h

/-- A carriage return at the end of a line makes no difference. -/
theorem read_dropReturn (raw : List Char) : read (dropReturn raw) = read raw := by
  unfold dropReturn
  split
  · rename_i rest hrev
    have hraw : raw = rest.reverse ++ ['\r'] := by
      rw [← List.reverse_reverse raw, hrev, List.reverse_cons]
    rw [hraw]
    generalize rest.reverse = front
    have hbody : (front ++ ['\r']).dropWhile (· == ' ') = front.dropWhile (· == ' ') ++ ['\r'] := by
      rw [List.dropWhile_append]
      split
      · rename_i hempty
        rw [List.isEmpty_iff.1 hempty]
        rfl
      · rfl
    have htext := trimEnd_append_of_blank (by decide : isBlank '\r' = true)
      (front.dropWhile (· == ' '))
    unfold read
    simp only [hbody, htext, List.length_append, List.length_singleton, Nat.add_sub_add_right]
    split
    · rfl
    · rfl
    · rename_i hnil _
      have hne : front.dropWhile (· == ' ') ≠ [] := by
        intro h
        rw [h] at hnil
        exact hnil rfl
      rw [List.head?_append_of_ne_nil _ hne]
  · rfl

end Line

namespace Reader

/-! ## The lines of content -/

/-- The lines of content with their indentation. -/
def contents : Source → List (Nat × List Char)
  | [] => []
  | (_, .comment ..) :: rest => contents rest
  | (_, .content indent text) :: rest => (indent, text) :: contents rest

theorem contents_append (a b : Source) : contents (a ++ b) = contents a ++ contents b := by
  fun_induction contents a with
  | case1 => rfl
  | case2 number indent text rest ih => exact ih
  | case3 number indent text rest ih => exact congrArg _ ih

theorem contents_of_none {src : Source} (h : next? src = none) : contents src = [] := by
  induction h using next?_none_induction with
  | nil => rfl
  | comment number indent text rest h ih => exact ih

theorem contents_of_next? {src : Source} {step : Step} (h : next? src = some step) :
    contents src = (step.indent, step.text) :: contents step.rest := by
  induction h using next?_some_induction with
  | content number indent text rest => rfl
  | comment number indent text rest step h ih => exact ih

/-- Between the same lines of content the same line comes next. -/
theorem next?_of_contents {src src' : Source} (h : contents src = contents src') :
    (next? src = none ∧ next? src' = none) ∨
      ∃ indent text comments number rest comments' number' rest',
        next? src = some ⟨comments, number, indent, text, rest⟩ ∧
        next? src' = some ⟨comments', number', indent, text, rest'⟩ ∧
        contents rest = contents rest' := by
  cases hnext : next? src with
  | none =>
    rw [contents_of_none hnext] at h
    cases hnext' : next? src' with
    | none => exact .inl ⟨rfl, rfl⟩
    | some step' =>
      rw [contents_of_next? hnext'] at h
      cases h
  | some step =>
    rw [contents_of_next? hnext] at h
    cases hnext' : next? src' with
    | none =>
      rw [contents_of_none hnext'] at h
      cases h
    | some step' =>
      rw [contents_of_next? hnext'] at h
      obtain ⟨comments, number, indent, text, rest⟩ := step
      obtain ⟨hline, hrest⟩ := List.cons.inj h
      obtain ⟨rfl, rfl⟩ := Prod.mk.inj hline
      exact .inr ⟨_, _, _, _, _, _, _, _, rfl, rfl, hrest⟩

/-! ## The comments around a place -/

theorem lineComments_append (a b : Source) :
    lineComments (a ++ b) = lineComments a ++ lineComments b := by
  fun_induction lineComments a with
  | case1 => rfl
  | case2 number indent text rest ih => exact congrArg _ ih
  | case3 number indent text rest ih =>
    rw [List.cons_append, lineComments, ih, List.append_assoc]

theorem fileComments_comment (number indent : Nat) (text : List Char) (src : Source) :
    fileComments ((number, .comment indent text) :: src) =
      String.ofList text :: fileComments src := by
  rw [fileComments, fileComments, next?, lineComments]
  cases next? src with
  | none => rfl
  | some step =>
    dsimp only [Option.map]
    split
    · rw [List.cons_append, List.cons_append]
    · rfl

theorem fileComments_content (number indent : Nat) (text : List Char) (src : Source) :
    fileComments ((number, .content indent text) :: src) =
      (if text.head? = some '\x7b' then valueComment? text else contentComment? text).toList ++
        lineComments src := by
  rw [fileComments, next?, lineComments]
  dsimp only
  split
  · rw [List.nil_append]
  · rfl

/-- The comments behind a place, where the first line of the file is special. -/
def commentsBehind (front back : Source) : List String :=
  if contents front = [] then fileComments back else lineComments back

theorem fileComments_append (a b : Source) :
    fileComments (a ++ b) = fileComments a ++ commentsBehind a b := by
  rw [commentsBehind]
  fun_induction contents a with
  | case1 => rfl
  | case2 number indent text rest ih =>
    rw [List.cons_append, fileComments_comment, fileComments_comment, ih, List.cons_append]
  | case3 number indent text rest ih =>
    rw [List.cons_append, fileComments_content, fileComments_content, lineComments_append,
      if_neg (List.cons_ne_nil _ _), List.append_assoc]

theorem commentsBehind_comment (front back : Source) (number indent : Nat) (text : List Char) :
    commentsBehind front ((number, .comment indent text) :: back) =
      String.ofList text :: commentsBehind front back := by
  rw [commentsBehind, commentsBehind, fileComments_comment, lineComments]
  split <;> rfl

/-! ## Lines under other numbers -/

theorem sourceOf_append (number : Nat) (a b : List (List Char)) :
    sourceOf number (a ++ b) = do
      let front ← sourceOf number a
      let back ← sourceOf (number + a.length) b
      return front ++ back := by
  induction a generalizing number with
  | nil =>
    rw [List.nil_append, sourceOf, ok_bind, List.length_nil, Nat.add_zero]
    cases sourceOf number b <;> rfl
  | cons raw a ih =>
    have hnumber : number + 1 + a.length = number + (raw :: a).length := by
      rw [List.length_cons]
      omega
    rw [List.cons_append, sourceOf, sourceOf, ih, hnumber]
    cases Line.read raw with
    | tabIndentation => rfl
    | marker => rfl
    | line line =>
      cases sourceOf (number + 1) a with
      | error e => rfl
      | ok front => cases sourceOf (number + (raw :: a).length) b <;> rfl

theorem sourceOf_congr (number : Nat) {raws raws' : List (List Char)}
    (h : raws.map Line.read = raws'.map Line.read) :
    sourceOf number raws = sourceOf number raws' := by
  induction raws generalizing number raws' with
  | nil =>
    obtain rfl := List.map_eq_nil_iff.1 h.symm
    rfl
  | cons raw raws ih =>
    obtain ⟨raw', raws', rfl, hraw, hraws⟩ := List.map_eq_cons_iff.1 h.symm
    rw [sourceOf, sourceOf, hraw, ih _ hraws.symm]

theorem sourceOf_renumber {number : Nat} (number' : Nat) {raws : List (List Char)} {src : Source}
    (h : sourceOf number raws = .ok src) :
    ∃ src', sourceOf number' raws = .ok src' ∧ contents src' = contents src ∧
      lineComments src' = lineComments src ∧ fileComments src' = fileComments src := by
  induction raws generalizing number number' src with
  | nil =>
    obtain rfl := Except.ok.inj h
    exact ⟨[], rfl, rfl, rfl, rfl⟩
  | cons raw raws ih =>
    rw [sourceOf] at h ⊢
    cases hread : Line.read raw with
    | tabIndentation =>
      rw [hread] at h
      cases h
    | marker =>
      rw [hread] at h
      exact ih _ h
    | line line =>
      rw [hread] at h
      obtain ⟨rest, hrest, h⟩ := bind_eq_ok_iff.1 h
      obtain rfl := Except.ok.inj h
      obtain ⟨rest', hrest', hcontents, hlines, hfile⟩ := ih (number' + 1) hrest
      refine ⟨(number', line) :: rest', by rw [hrest']; rfl, ?_⟩
      cases line with
      | comment indent text =>
        rw [fileComments_comment, fileComments_comment, hfile, lineComments, lineComments, hlines]
        exact ⟨hcontents, rfl, rfl⟩
      | content indent text =>
        rw [fileComments_content, fileComments_content, hlines, lineComments, lineComments, hlines]
        exact ⟨congrArg ((indent, text) :: ·) hcontents, rfl, rfl⟩

theorem map_read_lines_closed (text : List Char) :
    (lines (closed text)).map Line.read = (lines text).map Line.read := by
  rw [closed]
  split
  · rfl
  · rename_i hopen
    rw [Text.IsClosed, not_or] at hopen
    suffices h : ∀ current, text.getLast? ≠ some '\n' → (text = [] → current ≠ []) →
        (splitLines current (text ++ ['\n'])).map Line.read =
          (splitLines current text).map Line.read from
      h [] hopen.2 fun hnil ↦ absurd hnil hopen.1
    intro current hlast hcurrent
    clear hopen
    fun_induction splitLines current text with
    | case1 current hempty => exact absurd (List.isEmpty_iff.1 hempty) (hcurrent rfl)
    | case2 current hempty =>
      rw [List.nil_append, splitLines, splitLines, if_pos List.isEmpty_nil, List.map_singleton,
        List.map_singleton, Line.read_dropReturn]
    | case3 current rest ih =>
      rw [List.cons_append, splitLines, List.map_cons, List.map_cons]
      cases rest with
      | nil => exact absurd rfl hlast
      | cons c rest =>
        rw [ih (by rwa [List.getLast?_cons_cons] at hlast) fun hnil ↦ by cases hnil]
    | case4 current c rest hc ih =>
      rw [List.cons_append, splitLines]
      · refine ih ?_ fun _ ↦ List.cons_ne_nil _ _
        cases rest with
        | nil => simp
        | cons d rest => rwa [List.getLast?_cons_cons] at hlast
      · exact hc

end Reader

end LayeredConfig
