import Mathlib
import LayeredConfig.Proofs.Alias.FirstWord

/-!
# Quoted words

A word can be written between single quotes, between double quotes or with backslashes, and any
white space can stand between two words: splitting gives the words back. A line end keeps two texts
apart. Whatever a text that can be split ends with, a comment, a word or nothing, the words of the
next line follow on its own.
-/

namespace LayeredConfig

namespace Words

variable {mode mode' : Mode} {c : Char} {word space front : List Char} {words : List (List Char)}

/-! ## One character -/

theorem scan_cons (mode : Mode) (c : Char) (rest : List Char) :
    scan mode (c :: rest) = ((step mode c).1.toList ++ ·) <$> scan (step mode c).2 rest :=
  bind_pure_comp ..

theorem scan_cons_of_none (h : step mode c = (none, mode')) (rest : List Char) :
    scan mode (c :: rest) = scan mode' rest := by
  rw [scan_cons, h]
  exact id_map (scan mode' rest)

theorem scan_cons_of_some (h : step mode c = (some word, mode')) (rest : List Char) :
    scan mode (c :: rest) = (word :: ·) <$> scan mode' rest := by
  rw [scan_cons, h]
  rfl

theorem step_gap_of_blank (h : Text.isBlank c = true) : step .gap c = (none, .gap) :=
  if_pos h

theorem step_bare_of_blank (h : Text.isBlank c = true) : step (.bare word) c = (some word, .gap) :=
  if_pos h

/-- At the start of a word, white space and number signs apart, it goes on as within one. -/
theorem step_gap_eq (hblank : Text.isBlank c = false) (hsign : c ≠ '#') :
    step .gap c = step (.bare []) c := by
  simp only [step, hblank, if_neg hsign, if_neg Bool.false_ne_true]

/-! ## Line ends -/

/-- Where a text may end, a line feed ends the same word. -/
theorem step_lineFeed (h : finish mode = .ok words) :
    (step mode '\n').1.toList = words ∧ (step mode '\n').2 = .gap := by
  have hblank : Text.isBlank '\n' = true := by decide
  cases mode with
  | gap =>
    obtain rfl := Except.ok.inj h
    rw [step_gap_of_blank hblank]
    exact ⟨rfl, rfl⟩
  | comment =>
    obtain rfl := Except.ok.inj h
    exact ⟨rfl, rfl⟩
  | bare word =>
    obtain rfl := Except.ok.inj h
    rw [step_bare_of_blank hblank]
    exact ⟨rfl, rfl⟩
  | escaped | single | double | doubleEscaped => cases h

theorem scan_append_line (h : scan mode front = .ok words) (rest : List Char) :
    scan mode (front ++ '\n' :: rest) = (words ++ ·) <$> scan .gap rest := by
  induction front generalizing mode words with
  | nil =>
    obtain ⟨hwords, hgap⟩ := step_lineFeed h
    rw [List.nil_append, scan_cons, hwords, hgap]
  | cons c front ih =>
    obtain ⟨more, hmore, rfl⟩ := scan_cons_eq_ok h
    rw [List.cons_append, scan_cons, ih hmore, ← comp_map]
    simp only [Function.comp_def, List.append_assoc]

/-- The words of two texts with a line end between them are the words of the first and then those of
the second. When the second cannot be split, it fails as the second does. -/
theorem split_append_line {front : String} {words : List String} (h : split front = .ok words)
    (rest : String) : split (front ++ "\n" ++ rest) = (words ++ ·) <$> split rest := by
  obtain ⟨lists, hscan, hwords⟩ := bind_eq_ok_iff.1 h
  obtain rfl := Except.ok.inj hwords
  have hchars : (front ++ "\n" ++ rest).toList = front.toList ++ '\n' :: rest.toList := by
    simp
  rw [split, split, hchars, scan_append_line hscan]
  cases scan .gap rest.toList with
  | error e => rfl
  | ok later => exact congrArg Except.ok List.map_append

/-- A comment and an empty word end with their line, and the error of the next line is reported. -/
theorem split_append_line_comment :
    split "a '' #b" = .ok ["a", ""] ∧ split ("a '' #b" ++ "\n" ++ "c'd'") = .ok ["a", "", "cd"] ∧
      split ("a '' #b" ++ "\n" ++ "c'd") = .error (.unterminatedQuote '\'') := by
  have h : split "a '' #b" = .ok ["a", ""] := by cbv
  refine ⟨h, (split_append_line h "c'd'").trans ?_, (split_append_line h "c'd").trans ?_⟩
  · cbv
  · cbv

/-! ## Quoting -/

/-- The ways to write a word. -/
inductive Quoting where
  /-- Between single quotes; one in the word stands outside them, behind a backslash. -/
  | single
  /-- Between double quotes, with a backslash before the characters that mean something there. -/
  | double
  /-- With a backslash before every character. -/
  | backslashes
deriving DecidableEq, Repr

namespace Quoting

def writeChar (q : Quoting) (c : Char) : List Char :=
  match q with
  | single => if c = '\'' then ['\'', '\\', '\'', '\''] else [c]
  | double => if c ∈ ['\\', '"', '$', '\x60'] then ['\\', c] else [c]
  | backslashes => ['\\', c]

def mark : Quoting → List Char
  | single => ['\'']
  | double => ['"']
  | backslashes => []

def write (q : Quoting) (word : List Char) : List Char :=
  q.mark ++ word.flatMap q.writeChar ++ q.mark

/-- Backslashes write neither an empty word nor a line feed. -/
def Admits (q : Quoting) (word : List Char) : Prop :=
  q = backslashes → word ≠ [] ∧ '\n' ∉ word

instance (q : Quoting) (word : List Char) : Decidable (q.Admits word) :=
  inferInstanceAs (Decidable (_ → _))

/-- The mode between two characters of a word that is written in this way. -/
def inside : Quoting → List Char → Mode
  | single => .single
  | double => .double
  | backslashes => .bare

end Quoting

variable {q : Quoting}

theorem isEscapable_iff : isEscapable c = true ↔ c ∈ ['\\', '"', '$', '\x60'] := by
  simp [isEscapable, or_assoc]

/-- A written character is read as that character. -/
theorem scan_writeChar (h : q = .backslashes → c ≠ '\n') (word rest : List Char) :
    scan (q.inside word) (q.writeChar c ++ rest) = scan (q.inside (word ++ [c])) rest := by
  cases q with
  | single =>
    rw [Quoting.writeChar]
    split
    · rename_i hquote
      subst hquote
      exact (scan_cons_of_none rfl _).trans ((scan_cons_of_none rfl _).trans
        ((scan_cons_of_none rfl _).trans (scan_cons_of_none rfl rest)))
    · rename_i hquote
      exact scan_cons_of_none (congrArg _ (if_neg hquote)) rest
  | double =>
    rw [Quoting.writeChar]
    split
    · rename_i hmark
      refine (scan_cons_of_none rfl _).trans (scan_cons_of_none ?_ rest)
      exact congrArg _ (congrArg _ (if_pos (isEscapable_iff.2 hmark)))
    · rename_i hmark
      have hquote : c ≠ '"' := fun heq ↦ hmark (by simp [heq])
      have hslash : c ≠ '\\' := fun heq ↦ hmark (by simp [heq])
      exact scan_cons_of_none (congrArg _ ((if_neg hquote).trans (if_neg hslash))) rest
  | backslashes =>
    refine (scan_cons_of_none rfl _).trans (scan_cons_of_none ?_ rest)
    exact congrArg _ (congrArg _ (if_neg (h rfl)))

theorem scan_writeChars (h : q = .backslashes → '\n' ∉ word) (before rest : List Char) :
    scan (q.inside before) (word.flatMap q.writeChar ++ rest) =
      scan (q.inside (before ++ word)) rest := by
  induction word generalizing before with
  | nil => rw [List.flatMap_nil, List.nil_append, List.append_nil]
  | cons c word ih =>
    have hc : q = .backslashes → c ≠ '\n' := fun hq ↦ (List.ne_of_not_mem_cons (h hq)).symm
    have hword : q = .backslashes → '\n' ∉ word := fun hq ↦ List.not_mem_of_not_mem_cons (h hq)
    rw [List.flatMap_cons, List.append_assoc, scan_writeChar hc, ih hword, List.append_assoc,
      List.singleton_append]

/-- A written word is read as that word, and it has not ended yet. -/
theorem scan_write (h : q.Admits word) (rest : List Char) :
    scan .gap (q.write word ++ rest) = scan (.bare word) rest := by
  have hchars := scan_writeChars (fun hq ↦ (h hq).2) []
  have hstart {c : Char} (hblank : Text.isBlank c = false) (hsign : c ≠ '#') (text : List Char) :
      scan .gap (c :: text) = scan (.bare []) (c :: text) := by
    rw [scan_cons, scan_cons, step_gap_eq hblank hsign]
  rw [Quoting.write, List.append_assoc, List.append_assoc]
  cases q with
  | single =>
    rw [Quoting.mark, List.singleton_append, hstart (by decide) (by decide)]
    exact (scan_cons_of_none rfl _).trans ((hchars _).trans (scan_cons_of_none rfl rest))
  | double =>
    rw [Quoting.mark, List.singleton_append, hstart (by decide) (by decide)]
    exact (scan_cons_of_none rfl _).trans ((hchars _).trans (scan_cons_of_none rfl rest))
  | backslashes =>
    cases word with
    | nil => exact absurd rfl (h rfl).1
    | cons c word =>
      exact (hstart (by decide) (by decide) _).trans (hchars rest)

/-! ## Joined words -/

/-- White space between two words. -/
structure Gap where
  text : List Char
  nonempty : text ≠ []
  blank : ∀ c ∈ text, Text.isBlank c = true

/-- A word and the way it is written. -/
structure QuotedWord where
  word : List Char
  quoting : Quoting
  admits : quoting.Admits word

def QuotedWord.text (w : QuotedWord) : List Char :=
  w.quoting.write w.word

/-- The words with their gaps between them. The gap behind the last word is left out. -/
def joined : List (QuotedWord × Gap) → List Char
  | [] => []
  | [(w, _)] => w.text
  | (w, gap) :: next :: rest => w.text ++ (gap.text ++ joined (next :: rest))

theorem scan_gap_append (h : ∀ c ∈ space, Text.isBlank c = true) (rest : List Char) :
    scan .gap (space ++ rest) = scan .gap rest := by
  induction space with
  | nil => rfl
  | cons c space ih =>
    obtain ⟨hc, hspace⟩ := List.forall_mem_cons.1 h
    rw [List.cons_append, scan_cons_of_none (step_gap_of_blank hc), ih hspace]

/-- White space ends a word. -/
theorem scan_bare_append (gap : Gap) (word rest : List Char) :
    scan (.bare word) (gap.text ++ rest) = (word :: ·) <$> scan .gap rest := by
  obtain ⟨space, hne, hblank⟩ := gap
  cases space with
  | nil => exact absurd rfl hne
  | cons c space =>
    obtain ⟨hc, hspace⟩ := List.forall_mem_cons.1 hblank
    rw [List.cons_append, scan_cons_of_some (step_bare_of_blank hc), scan_gap_append hspace]

theorem scan_joined (words : List (QuotedWord × Gap)) :
    scan .gap (joined words) = .ok (words.map fun w ↦ w.1.word) := by
  induction words with
  | nil => rfl
  | cons w words ih =>
    obtain ⟨w, gap⟩ := w
    cases words with
    | nil =>
      rw [joined, ← List.append_nil w.text, QuotedWord.text, scan_write w.admits]
      rfl
    | cons next rest =>
      rw [joined, QuotedWord.text, scan_write w.admits, scan_bare_append, ih]
      rfl

/-- Words that are written with any quoting, with any white space between them, are split into
these words again. -/
theorem split_joined (words : List (QuotedWord × Gap)) :
    split (String.ofList (joined words)) = .ok (words.map fun w ↦ String.ofList w.1.word) := by
  rw [split, String.toList_ofList, scan_joined]
  exact congrArg Except.ok (List.map_map ..)

example : split "'#'\\''' \t\"\"\n\\\"\\ " = .ok ["#'", "", "\" "] := by cbv

end Words

end LayeredConfig
