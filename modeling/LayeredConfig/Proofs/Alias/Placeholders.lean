import LayeredConfig.Alias.Expansion

/-!
# Placeholders and their arguments

The arguments behind an alias are filled in one after the other, each into the whole text that has
come about so far. This is the same as filling all of them in at once when no argument brings a
dollar sign along and the text has no placeholder that another one could be mistaken for. An
argument is then used exactly once: in the text, or behind its words.
-/

namespace LayeredConfig.Alias

/-! ## Filling in at once -/

/-- The argument whose number is written with these digits, the first one being number `index`. -/
def argument? (index : Nat) (digits : List Char) : List String → Option String
  | [] => none
  | argument :: rest =>
    if digits = (toString index).toList then some argument else argument? (index + 1) digits rest

/-- Fills every argument in at once. The number behind a dollar sign goes as far as its digits, and
a dollar sign without the number of an argument stays. -/
def substitute (arguments : List String) : List Char → List Char
  | [] => []
  | '$' :: rest =>
    match argument? 1 (rest.takeWhile Char.isDigit) arguments with
    | some argument => argument.toList ++ substitute arguments (rest.dropWhile Char.isDigit)
    | none => '$' :: substitute arguments rest
  | c :: rest => c :: substitute arguments rest
termination_by text => text.length
decreasing_by
  · exact Nat.lt_succ_of_le (List.dropWhile_sublist _).length_le
  · exact Nat.lt_succ_self _
  · exact Nat.lt_succ_self _

/-! ## Filling in one after the other -/

/-- Every occurrence of a pattern is replaced, from left to right. -/
inductive Replaced (pattern replacement : List Char) : List Char → List Char → Prop
  | nowhere {text : List Char} (h : ¬ pattern <:+: text) : Replaced pattern replacement text text
  | first (before : List Char) {after result : List Char}
      (h : ¬ pattern <:+: before ++ pattern.dropLast)
      (hrest : Replaced pattern replacement after result) :
      Replaced pattern replacement (before ++ pattern ++ after) (before ++ replacement ++ result)

/-- The arguments are filled in one after the other, the first one being number `index`. -/
inductive Filled : Nat → List Char → List String → List Char → Prop
  | nil (index : Nat) (text : List Char) : Filled index text [] text
  | cons {index : Nat} {text next result : List Char} {argument : String} {rest : List String}
      (h : Replaced (placeholder index) argument.toList text next)
      (hrest : Filled (index + 1) next rest result) : Filled index text (argument :: rest) result

/-- The text that the arguments are filled in to. -/
def fillEach (index : Nat) (text : List Char) : List String → List Char
  | [] => text
  | argument :: rest =>
    fillEach (index + 1) (replaceFrom (placeholder index) argument.toList 0 text) rest

section

variable {index : Nat} {argument : String} {arguments rest : List String}
  {pattern replacement text before after : List Char} {c : Char}

/-! ### One replacement -/

theorem replaceFrom_append (front : List Char) :
    replaceFrom pattern replacement front.length (front ++ text) =
      replaceFrom pattern replacement 0 text := by
  induction front with
  | nil => rfl
  | cons c front ih => rw [List.cons_append, List.length_cons, replaceFrom, ih]

/-- An occurrence is replaced as a whole. -/
theorem replaceFrom_pattern (h : pattern ≠ []) :
    replaceFrom pattern replacement 0 (pattern ++ text) =
      replacement ++ replaceFrom pattern replacement 0 text := by
  obtain ⟨c, more, rfl⟩ := List.exists_cons_of_ne_nil h
  have hprefix : (c :: more).isPrefixOf (c :: (more ++ text)) = true :=
    List.isPrefixOf_iff_prefix.2 (List.prefix_append (c :: more) text)
  rw [List.cons_append, replaceFrom, if_pos hprefix]
  exact congrArg _ (replaceFrom_append more)

theorem replaceFrom_cons (h : ¬ pattern <+: c :: text) :
    replaceFrom pattern replacement 0 (c :: text) =
      c :: replaceFrom pattern replacement 0 text := by
  rw [replaceFrom, if_neg (fun hprefix ↦ h (List.isPrefixOf_iff_prefix.1 hprefix))]

theorem Replaced.cons {result : List Char} (h : ¬ pattern <+: c :: text)
    (hreplaced : Replaced pattern replacement text result) :
    Replaced pattern replacement (c :: text) (c :: result) := by
  cases hreplaced with
  | nowhere hnot =>
    apply Replaced.nowhere
    rw [List.infix_cons_iff, not_or]
    exact ⟨h, hnot⟩
  | first before hfirst hrest =>
    apply Replaced.first (c :: before) _ hrest
    rw [List.cons_append, List.infix_cons_iff, not_or]
    refine ⟨fun hpattern ↦ h (hpattern.trans ?_), hfirst⟩
    rw [List.append_assoc]
    exact List.cons_prefix_cons.2 ⟨rfl, (List.prefix_append_right_inj _).2
      ((List.dropLast_prefix _).trans (List.prefix_append _ _))⟩

theorem replaced_replaceFrom (hne : pattern ≠ []) (replacement text : List Char) :
    Replaced pattern replacement text (replaceFrom pattern replacement 0 text) := by
  match text with
  | [] => exact .nowhere fun hinfix ↦ hne (List.infix_nil.1 hinfix)
  | c :: text =>
    by_cases hprefix : pattern <+: c :: text
    · obtain ⟨after, happend⟩ := hprefix
      have hlength := List.length_pos_iff.2 hne
      have hshorter : after.length < (c :: text).length := by
        rw [← happend, List.length_append]
        omega
      rw [← happend, replaceFrom_pattern hne]
      refine .first [] ?_ (replaced_replaceFrom hne replacement after)
      intro hinfix
      have hle := hinfix.length_le
      rw [List.nil_append, List.length_dropLast] at hle
      omega
    · rw [replaceFrom_cons hprefix]
      exact (replaced_replaceFrom hne replacement text).cons hprefix
termination_by text.length
decreasing_by
  · exact hshorter
  · exact Nat.lt_succ_self text.length

theorem replaceFrom_append_of_not_mem {number : List Char} (h : '$' ∉ before) :
    replaceFrom ('$' :: number) replacement 0 (before ++ after) =
      before ++ replaceFrom ('$' :: number) replacement 0 after := by
  induction before with
  | nil => rfl
  | cons c before ih =>
    rw [List.mem_cons, not_or] at h
    rw [List.cons_append, replaceFrom_cons, ih h.2, List.cons_append]
    exact fun hprefix ↦ h.1 (List.cons_prefix_cons.1 hprefix).1

/-! ### One argument after the other -/

theorem filled_fillEach (index : Nat) (text : List Char) (arguments : List String) :
    Filled index text arguments (fillEach index text arguments) := by
  induction arguments generalizing index text with
  | nil => exact .nil index text
  | cons argument rest ih =>
    exact .cons (replaced_replaceFrom (List.cons_ne_nil _ _) _ _) (ih _ _)

theorem fillEach_append_of_not_mem (index : Nat) (h : '$' ∉ before) (after : List Char)
    (arguments : List String) :
    fillEach index (before ++ after) arguments = before ++ fillEach index after arguments := by
  induction arguments generalizing index after with
  | nil => rfl
  | cons argument rest ih =>
    rw [fillEach, placeholder, replaceFrom_append_of_not_mem h, ih]
    rfl

theorem fillEach_of_not_mem (index : Nat) (h : '$' ∉ text) (arguments : List String) :
    fillEach index text arguments = text := by
  induction arguments generalizing index with
  | nil => rfl
  | cons argument rest ih =>
    have hsame : replaceFrom (placeholder index) argument.toList 0 (text ++ []) = text ++ [] :=
      replaceFrom_append_of_not_mem h
    rw [List.append_nil] at hsame
    rw [fillEach, hsame, ih]

/-- Without a dollar sign nothing is filled in and no argument is used. -/
theorem fill_of_not_mem (index : Nat) (h : '$' ∉ text) (arguments : List String) :
    fill index text arguments = (text, arguments) := by
  induction arguments generalizing index with
  | nil => rfl
  | cons argument rest ih =>
    rw [fill, if_neg (by simpa using h), ih]

theorem fill_cons_of_mem (index : Nat) (h : '$' ∈ text) (argument : String) (rest : List String) :
    fill index text (argument :: rest) =
      fill (index + 1) (replaceFrom (placeholder index) argument.toList 0 text) rest := by
  rw [fill, if_pos (by simpa using h)]

/-- Arguments that are not filled in are the last ones. -/
theorem fill_eq (index : Nat) (text : List Char) (arguments : List String) :
    ∃ unused, fill index text arguments = (fillEach index text arguments, unused) ∧
      unused <:+ arguments := by
  induction arguments generalizing index text with
  | nil => exact ⟨[], rfl, List.suffix_refl _⟩
  | cons argument rest ih =>
    by_cases h : '$' ∈ text
    · rw [fill_cons_of_mem index h]
      obtain ⟨unused, hfill, hsuffix⟩ := ih (index + 1) _
      exact ⟨unused, hfill, hsuffix.trans (List.suffix_cons _ _)⟩
    · rw [fill_of_not_mem index h, fillEach_of_not_mem index h]
      exact ⟨_, rfl, List.suffix_refl _⟩

/-! ### Digits -/

/-- A number starts with a digit that is itself the number of an earlier argument. -/
theorem exists_leading_digit {number : Nat} (h : 0 < number) :
    ∃ digit tail, 0 < digit ∧ digit < 10 ∧ digit ≤ number ∧
      (toString number).toList = digit.digitChar :: tail ∧ (number < 10 → digit = number) ∧
      (10 ≤ number → tail ≠ []) := by
  rw [Nat.toString_eq_repr, Nat.toList_repr]
  induction number using Nat.strongRecOn with
  | _ number ih =>
    by_cases hsmall : number < 10
    · exact ⟨number, [], h, hsmall, Nat.le_refl _, Nat.toDigits_of_lt_base hsmall, fun _ ↦ rfl,
        fun hlarge ↦ absurd hsmall (Nat.not_lt_of_le hlarge)⟩
    · have hlarge : 10 ≤ number := Nat.le_of_not_lt hsmall
      obtain ⟨digit, tail, hpos, hdigit, hle, hdigits, -, -⟩ :=
        ih (number / 10) (by omega) (by omega)
      refine ⟨digit, tail ++ [(number % 10).digitChar], hpos, hdigit, by omega, ?_,
        fun hlt ↦ absurd hlt hsmall, fun _ ↦ by simp⟩
      rw [Nat.toDigits_of_base_le (by decide) hlarge, hdigits, List.cons_append]

theorem toList_toString_of_lt {digit : Nat} (h : digit < 10) :
    (toString digit).toList = [digit.digitChar] := by
  rw [Nat.toString_eq_repr, Nat.toList_repr, Nat.toDigits_of_lt_base h]

theorem digitChar_inj {digit digit' : Nat} (h : digit < 10) (h' : digit' < 10)
    (heq : digit.digitChar = digit'.digitChar) : digit = digit' := by
  have hall : ∀ a b : Fin 10, a.val.digitChar = b.val.digitChar → a = b := by decide
  exact Fin.mk.inj (hall ⟨digit, h⟩ ⟨digit', h'⟩ heq)

theorem isDigit_digitChar {digit : Nat} (h : digit < 10) : digit.digitChar.isDigit = true := by
  have hall : ∀ a : Fin 10, a.val.digitChar.isDigit = true := by decide
  exact hall ⟨digit, h⟩

theorem ne_dollar_of_isDigit (h : c.isDigit = true) : c ≠ '$' := by
  rintro rfl
  exact absurd h (by decide)

theorem isDigit_of_mem_toString {number : Nat} (h : c ∈ (toString number).toList) :
    c.isDigit = true := by
  rw [Nat.toString_eq_repr, Nat.toList_repr] at h
  exact Nat.isDigit_of_mem_toDigits (by decide) (by decide) h

theorem exists_digits (number : Nat) : ∃ c tail, (toString number).toList = c :: tail := by
  rw [Nat.toString_eq_repr, Nat.toList_repr]
  exact List.exists_cons_of_ne_nil Nat.toDigits_ne_nil

/-- A placeholder is found at a dollar sign only if its number starts with what stands behind. -/
theorem exists_of_placeholder_prefix (h : placeholder index <+: '$' :: c :: text) :
    ∃ tail, (toString index).toList = c :: tail := by
  obtain ⟨digit, tail, hdigits⟩ := exists_digits index
  rw [placeholder, hdigits, List.cons_prefix_cons, List.cons_prefix_cons] at h
  obtain ⟨-, rfl, -⟩ := h
  exact ⟨tail, hdigits⟩

/-! ### Dollar signs -/

theorem exists_dollars (text : List Char) :
    ∃ count rest, text = List.replicate count '$' ++ rest ∧ rest.head? ≠ some '$' := by
  induction text with
  | nil => exact ⟨0, [], rfl, nofun⟩
  | cons c text ih =>
    by_cases hc : c = '$'
    · obtain ⟨count, rest, rfl, hrest⟩ := ih
      exact ⟨count + 1, rest, by rw [hc, List.replicate_succ, List.cons_append], hrest⟩
    · exact ⟨0, c :: text, rfl, fun heq ↦ hc (Option.some.inj heq)⟩

theorem replaceFrom_dollars (count : Nat) (hnumber : ∀ c, text.head? = some c →
    ∀ tail, (toString index).toList ≠ c :: tail) :
    replaceFrom (placeholder index) replacement 0 (List.replicate count '$' ++ text) =
      List.replicate count '$' ++ replaceFrom (placeholder index) replacement 0 text := by
  induction count with
  | zero => rfl
  | succ count ih =>
    rw [List.replicate_succ, List.cons_append, replaceFrom_cons, ih, List.cons_append]
    intro hprefix
    cases hrest : List.replicate count '$' ++ text with
    | nil =>
      obtain ⟨digit, tail, hdigits⟩ := exists_digits index
      rw [hrest, placeholder, hdigits] at hprefix
      exact absurd hprefix.length_le (by simp)
    | cons c rest =>
      rw [hrest] at hprefix
      obtain ⟨tail, hdigits⟩ := exists_of_placeholder_prefix hprefix
      cases count with
      | zero =>
        exact hnumber c (by rw [← List.nil_append text]; exact congrArg _ hrest) tail hdigits
      | succ count =>
        rw [List.replicate_succ, List.cons_append] at hrest
        have hdigit : c.isDigit = true :=
          isDigit_of_mem_toString (hdigits ▸ List.mem_cons_self)
        exact ne_dollar_of_isDigit hdigit (List.cons.inj hrest).1.symm

/-- Dollar signs stay when no argument has a number that starts with what stands behind them. -/
theorem fillEach_dollars (count : Nat) (text : List Char) (hdollar : text.head? ≠ some '$')
    (hnumber : ∀ c, text.head? = some c →
      ∀ k < arguments.length, ∀ tail, (toString (index + k)).toList ≠ c :: tail) :
    fillEach index (List.replicate count '$' ++ text) arguments =
      List.replicate count '$' ++ fillEach index text arguments := by
  induction arguments generalizing index text with
  | nil => rfl
  | cons argument rest ih =>
    have hhead : (replaceFrom (placeholder index) argument.toList 0 text).head? = text.head? := by
      cases text with
      | nil => rfl
      | cons c text =>
        rw [replaceFrom_cons]
        · rfl
        · exact fun hprefix ↦ hdollar (by rw [List.head?_cons, (List.cons_prefix_cons.1 hprefix).1])
    have hindex : ∀ c, text.head? = some c → ∀ tail, (toString index).toList ≠ c :: tail :=
      fun c hc ↦ hnumber c hc 0 (Nat.succ_pos _)
    rw [fillEach, replaceFrom_dollars count hindex, ih _, fillEach]
    · rwa [hhead]
    · intro c hc k hk tail
      rw [Nat.add_assoc, Nat.add_comm 1]
      exact hnumber c (hhead ▸ hc) (k + 1) (Nat.succ_lt_succ hk) tail

/-- A placeholder of one digit is filled in with its argument, whatever stands behind it. -/
theorem fillEach_digit {digit k : Nat} (hdigit : digit < 10)
    (hfound : arguments[k]? = some argument)
    (hnumber : index + k = digit) (hdollar : '$' ∉ argument.toList) (text : List Char) :
    fillEach index ('$' :: digit.digitChar :: text) arguments =
      argument.toList ++ fillEach index text arguments := by
  induction arguments generalizing index k text with
  | nil => cases hfound
  | cons other rest ih =>
    cases k with
    | zero =>
      obtain rfl := Option.some.inj hfound
      obtain rfl : index = digit := hnumber
      have hpattern : placeholder index = ['$', index.digitChar] := by
        rw [placeholder, toList_toString_of_lt hdigit]
      have hreplace : replaceFrom ['$', index.digitChar] other.toList 0
          ('$' :: index.digitChar :: text) =
          other.toList ++ replaceFrom ['$', index.digitChar] other.toList 0 text :=
        replaceFrom_pattern (List.cons_ne_nil _ _)
      rw [fillEach, hpattern, hreplace, fillEach_append_of_not_mem _ hdollar, fillEach, hpattern]
    | succ k =>
      have hlt : index < 10 := by omega
      have hindex : ¬ placeholder index <+: '$' :: digit.digitChar :: text := by
        intro hprefix
        obtain ⟨tail, hdigits⟩ := exists_of_placeholder_prefix hprefix
        rw [toList_toString_of_lt hlt] at hdigits
        have heq := digitChar_inj hlt hdigit (List.cons.inj hdigits).1
        omega
      have hbehind : ¬ placeholder index <+: digit.digitChar :: text :=
        fun hprefix ↦ ne_dollar_of_isDigit (isDigit_digitChar hdigit)
          (List.cons_prefix_cons.1 hprefix).1.symm
      rw [fillEach, replaceFrom_cons hindex, replaceFrom_cons hbehind, fillEach]
      exact ih hfound (by omega) _

end

/-! ## The two ways agree -/

/-- The character is all of the number of one of `count` arguments. -/
def IsNumber (count : Nat) (c : Char) : Prop :=
  ∃ number, 0 < number ∧ number ≤ count ∧ (toString number).toList = [c]

/-- With `count` arguments, no dollar sign stands before a placeholder, and no placeholder before
another digit. -/
structure Unambiguous (count : Nat) (text : List Char) : Prop where
  apart : ∀ first tail, '$' :: '$' :: first :: tail <:+ text → ¬ IsNumber count first
  short : ∀ first second tail, '$' :: first :: second :: tail <:+ text → IsNumber count first →
    second.isDigit = false

section

variable {index count : Nat} {argument : String} {arguments : List String}
  {text digits : List Char} {c : Char}

theorem isNumber_of_digits {number : Nat} {tail : List Char} (h : 0 < number) (hle : number ≤ count)
    (hdigits : (toString number).toList = c :: tail) : IsNumber count c := by
  obtain ⟨digit, more, hpos, hdigit, hle', hdigits', -, -⟩ := exists_leading_digit h
  obtain ⟨rfl, -⟩ := List.cons.inj (hdigits.symm.trans hdigits')
  exact ⟨digit, hpos, Nat.le_trans hle' hle, toList_toString_of_lt hdigit⟩

theorem Unambiguous.suffix {part : List Char} (h : Unambiguous count text) (hs : part <:+ text) :
    Unambiguous count part :=
  ⟨fun first tail htail ↦ h.apart first tail (htail.trans hs),
    fun first second tail htail ↦ h.short first second tail (htail.trans hs)⟩

theorem argument?_eq_some (h : argument? index digits arguments = some argument) :
    ∃ k, arguments[k]? = some argument ∧ digits = (toString (index + k)).toList := by
  induction arguments generalizing index with
  | nil => cases h
  | cons other rest ih =>
    rw [argument?] at h
    split at h
    · rename_i hdigits
      exact ⟨0, h, hdigits⟩
    · obtain ⟨k, hk, hdigits⟩ := ih h
      refine ⟨k + 1, hk, ?_⟩
      rw [hdigits, Nat.add_assoc, Nat.add_comm 1]

theorem argument?_eq_none (h : argument? index digits arguments = none) {k : Nat}
    (hk : k < arguments.length) : digits ≠ (toString (index + k)).toList := by
  induction arguments generalizing index k with
  | nil => cases hk
  | cons other rest ih =>
    rw [argument?] at h
    split at h
    · cases h
    · rename_i hdigits
      cases k with
      | zero => exact hdigits
      | succ k =>
        have hrest := ih h (Nat.lt_of_succ_lt_succ hk)
        rwa [Nat.add_assoc, Nat.add_comm 1] at hrest

/-- The digits behind a placeholder of one digit end with it. -/
theorem takeWhile_of_isNumber {tail : List Char} (h : Unambiguous count ('$' :: c :: tail))
    (hnumber : IsNumber count c) :
    (c :: tail).takeWhile Char.isDigit = [c] ∧ (c :: tail).dropWhile Char.isDigit = tail := by
  obtain ⟨number, hpos, hle, hdigits⟩ := hnumber
  have hc : c.isDigit = true := isDigit_of_mem_toString (hdigits ▸ List.mem_cons_self)
  rw [List.takeWhile_cons_of_pos hc, List.dropWhile_cons_of_pos hc]
  cases tail with
  | nil => exact ⟨rfl, rfl⟩
  | cons second tail =>
    have hsecond : ¬ second.isDigit = true := by
      rw [h.short c second tail (List.suffix_refl _) ⟨number, hpos, hle, hdigits⟩]
      exact Bool.false_ne_true
    rw [List.takeWhile_cons_of_neg hsecond, List.dropWhile_cons_of_neg hsecond]
    exact ⟨rfl, rfl⟩

/-- Only a placeholder of one digit has an argument. -/
theorem digit_of_argument? {rest : List Char} (h : Unambiguous arguments.length ('$' :: rest))
    (hfound : argument? 1 (rest.takeWhile Char.isDigit) arguments = some argument) :
    ∃ digit k tail, digit < 10 ∧ arguments[k]? = some argument ∧ 1 + k = digit ∧
      rest = digit.digitChar :: tail ∧ rest.dropWhile Char.isDigit = tail := by
  obtain ⟨k, hargument, hdigits⟩ := argument?_eq_some hfound
  obtain ⟨hk, -⟩ := List.getElem?_eq_some_iff.1 hargument
  obtain ⟨digit, more, -, hdigit, -, hleading, hsmall, hlarge⟩ :=
    exists_leading_digit (show 0 < 1 + k by omega)
  rw [hleading] at hdigits
  cases rest with
  | nil => cases hdigits
  | cons c tail =>
    obtain rfl : c = digit.digitChar := by
      by_cases hc : c.isDigit = true
      · rw [List.takeWhile_cons_of_pos hc] at hdigits
        exact (List.cons.inj hdigits).1
      · rw [List.takeWhile_cons_of_neg hc] at hdigits
        cases hdigits
    obtain ⟨htake, hdrop⟩ :=
      takeWhile_of_isNumber h (isNumber_of_digits (by omega) (by omega) hleading)
    rw [htake] at hdigits
    have hone : 1 + k < 10 := by
      refine Nat.lt_of_not_le fun hle ↦ hlarge hle ?_
      exact (List.cons.inj hdigits).2.symm
    exact ⟨digit, k, tail, hdigit, hargument, (hsmall hone).symm, rfl, hdrop⟩

/-- Without a placeholder of one digit, no argument has a number that starts here. -/
theorem no_argument {tail : List Char} (h : Unambiguous arguments.length ('$' :: c :: tail))
    (hnone : argument? 1 ((c :: tail).takeWhile Char.isDigit) arguments = none) :
    ¬ IsNumber arguments.length c := by
  intro hnumber
  rw [(takeWhile_of_isNumber h hnumber).1] at hnone
  obtain ⟨number, hpos, hle, hdigits⟩ := hnumber
  refine argument?_eq_none hnone (show number - 1 < arguments.length by omega) ?_
  rw [← hdigits, Nat.add_sub_cancel' hpos]

/-- Filling the arguments in one after the other is filling them in at once. -/
theorem fillEach_eq_substitute (hdollar : ∀ argument ∈ arguments, '$' ∉ argument.toList)
    (h : Unambiguous arguments.length text) :
    fillEach 1 text arguments = substitute arguments text := by
  fun_induction substitute arguments text with
  | case1 => exact fillEach_of_not_mem 1 List.not_mem_nil arguments
  | case2 rest argument hfound ih =>
    obtain ⟨digit, k, tail, hdigit, hargument, hnumber, rfl, hdrop⟩ := digit_of_argument? h hfound
    rw [hdrop] at ih ⊢
    rw [fillEach_digit hdigit hargument hnumber (hdollar _ (List.mem_of_getElem? hargument)), ih]
    exact h.suffix ((List.suffix_cons _ _).trans (List.suffix_cons _ _))
  | case3 rest hnone ih =>
    -- More dollar signs may follow, and all of them stay.
    obtain ⟨count, behind, hrest, hbehind⟩ := exists_dollars rest
    have hnumber : ∀ c, behind.head? = some c → ¬ IsNumber arguments.length c := by
      intro c hc
      obtain ⟨tail, rfl⟩ : ∃ tail, behind = c :: tail := by
        cases behind with
        | nil => cases hc
        | cons c' tail => exact ⟨tail, by rw [Option.some.inj hc]⟩
      cases count with
      | zero =>
        obtain rfl : rest = c :: tail := hrest
        exact no_argument h hnone
      | succ count =>
        refine h.apart c tail ⟨List.replicate count '$', ?_⟩
        change List.replicate count '$' ++ (List.replicate 2 '$' ++ c :: tail) = '$' :: rest
        rw [hrest, ← List.append_assoc, List.replicate_append_replicate]
        rfl
    have hstay : ∀ c, behind.head? = some c →
        ∀ k < arguments.length, ∀ tail, (toString (1 + k)).toList ≠ c :: tail :=
      fun c hc k hk tail hdigits ↦ hnumber c hc (isNumber_of_digits (by omega) (by omega) hdigits)
    have hone : fillEach 1 (List.replicate (count + 1) '$' ++ behind) arguments =
        List.replicate (count + 1) '$' ++ fillEach 1 behind arguments :=
      fillEach_dollars (count + 1) behind hbehind hstay
    rw [List.replicate_succ, List.cons_append, ← hrest, List.cons_append,
      ← fillEach_dollars count behind hbehind hstay, ← hrest] at hone
    rw [hone, ih (h.suffix (List.suffix_cons _ _))]
  | case4 c rest hc ih =>
    have hdollar : '$' ∉ [c] := by simpa using fun heq ↦ hc heq.symm
    rw [← ih (h.suffix (List.suffix_cons _ _))]
    exact fillEach_append_of_not_mem 1 hdollar rest arguments

end

end LayeredConfig.Alias
