import LayeredConfig.Proofs.Alias.Placeholders

/-!
# What an alias makes of its arguments

The text that is split into words, or reported for want of arguments, is the expansion with the
arguments filled in one after the other. When the placeholders of an expansion are numbered without
a gap, each of these numbers uses up one argument and the arguments beyond them follow the words.
-/

namespace LayeredConfig.Alias

/-- What comes of a text that is filled in, with the words that follow it as they are. -/
def finish (text : List Char) (behind : List String) : Except ExpandError Expansion :=
  if hasPlaceholder text then .error (.notEnoughArguments (String.ofList text))
  else match Words.split (String.ofList text) with
    | .error cause => .error (.tokenize (String.ofList text) cause)
    | .ok words => .ok ⟨words ++ behind, false⟩

section

variable {table : Table} {shell : Except ShellError String} {program name expansion : String}
  {arguments : List String} {index count : Nat} {text : List Char} {c : Char}

theorem shellBody?_eq_none (h : isShell expansion = false) : shellBody? expansion = none := by
  unfold isShell at h
  unfold shellBody?
  split
  · rename_i hbody
    rw [hbody] at h
    cases h
  · rfl

theorem expandText_eq (expansion : String) (arguments : List String) :
    expandText expansion arguments =
      finish (fill 1 expansion.toList arguments).1 (fill 1 expansion.toList arguments).2 := rfl

/-- An alias that is no shell alias has its arguments filled in. -/
theorem expand_eq (hfound : table.get? name = some expansion) (h : isShell expansion = false) :
    expand table shell (program :: name :: arguments) = expandText expansion arguments := by
  simp only [expand, expandWith, hfound, shellBody?_eq_none h]
  rfl

/-! ## Filling in one after the other -/

/-- The arguments behind an alias are filled in one after the other, the arguments that are left
over follow the words of the text. This fills in all of them at once when they have no dollar sign
and no placeholder can be mistaken for another one. -/
theorem expand_fills_in_order (hfound : table.get? name = some expansion)
    (hshell : isShell expansion = false) :
    ∃ text behind, Filled 1 expansion.toList arguments text ∧ behind <:+ arguments ∧
      expand table shell (program :: name :: arguments) = finish text behind ∧
      ((∀ argument ∈ arguments, '$' ∉ argument.toList) →
        Unambiguous arguments.length expansion.toList →
          text = substitute arguments expansion.toList) := by
  obtain ⟨behind, hfill, hbehind⟩ := fill_eq 1 expansion.toList arguments
  refine ⟨_, behind, filled_fillEach 1 expansion.toList arguments, hbehind, ?_,
    fillEach_eq_substitute⟩
  rw [expand_eq hfound hshell, expandText_eq, hfill]

theorem expand_fills_in_order_issueList :
    (Table.mk [("il", "issue list --author=$1 $2")]).get? "il" = some "issue list --author=$1 $2" ∧
      isShell "issue list --author=$1 $2" = false ∧
      ∃ text behind, Filled 1 "issue list --author=$1 $2".toList ["$2", "a b"] text ∧
        behind <:+ ["$2", "a b"] ∧
        expand ⟨[("il", "issue list --author=$1 $2")]⟩ (.ok "/bin/sh") ["glab", "il", "$2", "a b"] =
          finish text behind ∧
        ((∀ argument ∈ ["$2", "a b"], '$' ∉ argument.toList) →
          Unambiguous 2 "issue list --author=$1 $2".toList →
            text = substitute ["$2", "a b"] "issue list --author=$1 $2".toList) :=
  ⟨by decide, by decide, expand_fills_in_order (by decide) (by decide)⟩

/-- An argument that reads like a placeholder is filled in itself. -/
theorem argument_filled_in_again :
    ¬ ∃ behind, expand ⟨[("a", "mr $1")]⟩ (.ok "/bin/sh") ["glab", "a", "$2", "x"] =
      finish (substitute ["$2", "x"] "mr $1".toList) behind := by
  rintro ⟨behind, h⟩
  have hexpand : expand ⟨[("a", "mr $1")]⟩ (.ok "/bin/sh") ["glab", "a", "$2", "x"] =
      .ok ⟨["mr", "x"], false⟩ := rfl
  have hfirst : argument? 1 ['1'] ["$2", "x"] = some "$2" := rfl
  have hsubstitute : substitute ["$2", "x"] "mr $1".toList = "mr $2".toList := by
    simp [substitute, hfirst]
  have hfinish : finish "mr $2".toList behind = .error (.notEnoughArguments "mr $2") := rfl
  rw [hexpand, hsubstitute, hfinish] at h
  cases h

/-! ## Placeholders without a gap -/

/-- Every dollar sign starts one of the placeholders with the numbers up to `count`, with no digit
behind it, and each of these numbers occurs. -/
structure Numbered (count : Nat) (text : List Char) : Prop where
  starts : ∀ rest, '$' :: rest <:+ text → ∃ number tail, 0 < number ∧ number ≤ count ∧
    rest = (toString number).toList ++ tail ∧ ∀ c, tail.head? = some c → c.isDigit = false
  occurs : ∀ number, 0 < number → number ≤ count → placeholder number <:+: text

theorem placeholder_of_lt {number : Nat} (h : number < 10) :
    placeholder number = ['$', number.digitChar] := by
  rw [placeholder, toList_toString_of_lt h]

theorem Numbered.unambiguous (h : Numbered count text) (hcount : count ≤ 9) (length : Nat) :
    Unambiguous length text := by
  refine ⟨fun first tail hsuffix _ ↦ ?_, fun first second tail hsuffix _ ↦ ?_⟩
  · obtain ⟨number, behind, -, hle, heq, -⟩ := h.starts _ hsuffix
    rw [toList_toString_of_lt (by omega)] at heq
    exact ne_dollar_of_isDigit (isDigit_digitChar (by omega)) (List.cons.inj heq).1.symm
  · obtain ⟨number, behind, -, hle, heq, hbehind⟩ := h.starts _ hsuffix
    rw [toList_toString_of_lt (by omega)] at heq
    obtain rfl : second :: tail = behind := (List.cons.inj heq).2
    exact hbehind second rfl

/-- A placeholder whose number no argument has stays. -/
theorem infix_substitute {number : Nat} (hnumber : arguments.length < number) (hlt : number < 10)
    (hunambiguous : Unambiguous arguments.length text)
    (h : ['$', number.digitChar] <:+: text) :
    ['$', number.digitChar] <:+: substitute arguments text := by
  fun_induction substitute arguments text with
  | case1 => exact h
  | case2 rest argument hfound ih =>
    obtain ⟨digit, k, tail, hdigit, hargument, rfl, rfl, hdrop⟩ :=
      digit_of_argument? hunambiguous hfound
    have hk : k < arguments.length := (List.getElem?_eq_some_iff.1 hargument).1
    rw [hdrop] at ih ⊢
    refine (ih (hunambiguous.suffix ((List.suffix_cons _ _).trans (List.suffix_cons _ _))) ?_).trans
      (List.suffix_append _ _).isInfix
    rcases List.infix_cons_iff.1 h with hprefix | hinfix
    · have heq := digitChar_inj hlt hdigit
        (List.cons_prefix_cons.1 (List.cons_prefix_cons.1 hprefix).2).1
      omega
    · rcases List.infix_cons_iff.1 hinfix with hprefix | hinfix
      · exact absurd (List.cons_prefix_cons.1 hprefix).1.symm
          (ne_dollar_of_isDigit (isDigit_digitChar hdigit))
      · exact hinfix
  | case3 rest hnone ih =>
    have hrest := ih (hunambiguous.suffix (List.suffix_cons _ _))
    rcases List.infix_cons_iff.1 h with hprefix | hinfix
    · obtain ⟨tail, rfl⟩ := (List.cons_prefix_cons.1 hprefix).2
      rw [List.singleton_append, substitute]
      · exact (List.prefix_append ['$', number.digitChar] _).isInfix
      · exact fun heq ↦ ne_dollar_of_isDigit (isDigit_digitChar hlt) heq
    · exact (hrest hinfix).trans (List.suffix_cons _ _).isInfix
  | case4 c rest hc ih =>
    rcases List.infix_cons_iff.1 h with hprefix | hinfix
    · exact absurd (List.cons_prefix_cons.1 hprefix).1.symm hc
    · exact (ih (hunambiguous.suffix (List.suffix_cons _ _)) hinfix).trans
        (List.suffix_cons _ _).isInfix

/-- With an argument for every number no dollar sign is left. -/
theorem not_mem_substitute (hdollar : ∀ argument ∈ arguments, '$' ∉ argument.toList)
    (hcount : count ≤ 9) (hlength : count ≤ arguments.length) (h : Numbered count text) :
    '$' ∉ substitute arguments text := by
  have hunambiguous := h.unambiguous hcount arguments.length
  have hstarts := h.starts
  clear h
  fun_induction substitute arguments text with
  | case1 => exact List.not_mem_nil
  | case2 rest argument hfound ih =>
    obtain ⟨digit, k, tail, -, hargument, -, rfl, hdrop⟩ := digit_of_argument? hunambiguous hfound
    rw [hdrop] at ih ⊢
    have hsuffix : tail <:+ '$' :: digit.digitChar :: tail :=
      (List.suffix_cons _ _).trans (List.suffix_cons _ _)
    rw [List.mem_append, not_or]
    exact ⟨hdollar _ (List.mem_of_getElem? hargument),
      ih (hunambiguous.suffix hsuffix) fun rest hrest ↦ hstarts rest (hrest.trans hsuffix)⟩
  | case3 rest hnone ih =>
    obtain ⟨number, tail, hpos, hle, rfl, -⟩ := hstarts rest (List.suffix_refl _)
    have hdigits := toList_toString_of_lt (Nat.lt_succ_of_le (Nat.le_trans hle hcount))
    rw [hdigits, List.singleton_append] at hnone hunambiguous
    exact absurd ⟨number, hpos, Nat.le_trans hle hlength, hdigits⟩ (no_argument hunambiguous hnone)
  | case4 c rest hc ih =>
    rw [List.mem_cons, not_or]
    exact ⟨fun heq ↦ hc heq.symm, ih (hunambiguous.suffix (List.suffix_cons _ _)) fun tail htail ↦
      hstarts tail (htail.trans (List.suffix_cons _ _))⟩

/-! ### What is left over -/

theorem fill_append (index : Nat) (text : List Char) (front back : List String) :
    fill index text (front ++ back) =
      ((fill (index + front.length) (fill index text front).1 back).1,
        (fill index text front).2 ++
          (fill (index + front.length) (fill index text front).1 back).2) := by
  induction front generalizing index text with
  | nil => rfl
  | cons argument front ih =>
    have hindex : index + (argument :: front).length = index + 1 + front.length := by
      rw [List.length_cons, Nat.add_assoc, Nat.add_comm 1]
    by_cases h : '$' ∈ text
    · rw [List.cons_append, hindex, fill_cons_of_mem index h, fill_cons_of_mem index h, ih]
    · rw [fill_of_not_mem _ h, fill_of_not_mem _ h, fill_of_not_mem _ h]

/-- Every argument that finds a dollar sign in its turn is used. -/
theorem fill_eq_of_mem (index : Nat) (text : List Char) (arguments : List String)
    (h : ∀ k < arguments.length, '$' ∈ fillEach index text (arguments.take k)) :
    fill index text arguments = (fillEach index text arguments, []) := by
  induction arguments generalizing index text with
  | nil => rfl
  | cons argument rest ih =>
    have hmem : '$' ∈ text := h 0 (Nat.succ_pos _)
    rw [fill_cons_of_mem index hmem, ih, fillEach]
    exact fun k hk ↦ h (k + 1) (Nat.succ_lt_succ hk)

/-- The arguments beyond the numbers of the placeholders are left over. -/
theorem fill_of_numbered (hdollar : ∀ argument ∈ arguments, '$' ∉ argument.toList)
    (hcount : count ≤ 9) (hlength : count ≤ arguments.length) (h : Numbered count text) :
    fill 1 text arguments = (substitute arguments text, arguments.drop count) := by
  have heach : ∀ k ≤ arguments.length,
      fillEach 1 text (arguments.take k) = substitute (arguments.take k) text :=
    fun k _ ↦ fillEach_eq_substitute (fun a ha ↦ hdollar a (List.mem_of_mem_take ha))
      (h.unambiguous hcount _)
  have hfront :
      fill 1 text (arguments.take count) = (substitute (arguments.take count) text, []) := by
    rw [← heach count hlength]
    refine fill_eq_of_mem 1 text _ fun k hk ↦ ?_
    rw [List.length_take, Nat.min_eq_left hlength] at hk
    rw [List.take_take, Nat.min_eq_left (Nat.le_of_lt hk), heach k (by omega)]
    have hoccurs := h.occurs count (by omega) (Nat.le_refl _)
    rw [placeholder_of_lt (by omega)] at hoccurs
    have hstays : ['$', count.digitChar] <:+: substitute (arguments.take k) text :=
      infix_substitute (by rw [List.length_take]; omega) (by omega) (h.unambiguous hcount _) hoccurs
    exact hstays.subset List.mem_cons_self
  have hclean : '$' ∉ substitute (arguments.take count) text := by
    have hlengthTake : count = (arguments.take count).length := by
      rw [List.length_take, Nat.min_eq_left hlength]
    exact not_mem_substitute (fun a ha ↦ hdollar a (List.mem_of_mem_take ha)) hcount
      (Nat.le_of_eq hlengthTake) h
  have hall : (fill 1 text arguments).1 = substitute arguments text := by
    obtain ⟨behind, hfill, -⟩ := fill_eq 1 text arguments
    rw [hfill]
    exact fillEach_eq_substitute hdollar (h.unambiguous hcount _)
  have hsplit := fill_append 1 text (arguments.take count) (arguments.drop count)
  rw [List.take_append_drop, hfront, fill_of_not_mem _ hclean, List.nil_append] at hsplit
  rw [← hall, hsplit]

/-! ### Placeholders in the result -/

theorem isDigit_digitChar_of_lt {digit : Nat} (h : digit < 10) :
    Text.isDigit digit.digitChar = true := by
  have hall : ∀ a : Fin 10, Text.isDigit a.val.digitChar = true := by decide
  exact hall ⟨digit, h⟩

theorem hasPlaceholder_of_not_mem (h : '$' ∉ text) : hasPlaceholder text = false := by
  fun_induction hasPlaceholder text with
  | case1 => simp at h
  | case2 c rest _ ih => exact ih (fun hmem ↦ h (List.mem_cons_of_mem _ hmem))
  | case3 => rfl

theorem hasPlaceholder_of_infix (hc : Text.isDigit c = true) (h : ['$', c] <:+: text) :
    hasPlaceholder text = true := by
  fun_induction hasPlaceholder text with
  | case1 other rest ih =>
    rcases List.infix_cons_iff.1 h with hprefix | hinfix
    · obtain rfl := (List.cons_prefix_cons.1 (List.cons_prefix_cons.1 hprefix).2).1
      rw [hc, Bool.true_or]
    · rw [ih hinfix, Bool.or_true]
  | case2 other rest hother ih =>
    rcases List.infix_cons_iff.1 h with hprefix | hinfix
    · obtain ⟨rfl, hrest⟩ := List.cons_prefix_cons.1 hprefix
      obtain ⟨tail, rfl⟩ := hrest
      exact absurd rfl (hother c tail rfl)
    · exact ih hinfix
  | case3 => exact absurd h.length_le (by simp)

/-- With too few arguments the text with all of them filled in is reported. With enough of them each
number uses up its argument and the other arguments follow the words of the text. -/
theorem expand_uses_each_argument (hfound : table.get? name = some expansion)
    (hshell : isShell expansion = false) (hcount : count ≤ 9)
    (h : Numbered count expansion.toList)
    (hdollar : ∀ argument ∈ arguments, '$' ∉ argument.toList) :
    (arguments.length < count → expand table shell (program :: name :: arguments) =
      .error (.notEnoughArguments (String.ofList (substitute arguments expansion.toList)))) ∧
    (count ≤ arguments.length → expand table shell (program :: name :: arguments) =
      match Words.split (String.ofList (substitute arguments expansion.toList)) with
      | .error cause =>
        .error (.tokenize (String.ofList (substitute arguments expansion.toList)) cause)
      | .ok words => .ok ⟨words ++ arguments.drop count, false⟩) := by
  constructor
  · intro hfew
    obtain ⟨behind, hfill, -⟩ := fill_eq 1 expansion.toList arguments
    have hunambiguous := h.unambiguous hcount arguments.length
    have hoccurs := h.occurs count (by omega) (Nat.le_refl _)
    rw [placeholder_of_lt (by omega)] at hoccurs
    have hleft := hasPlaceholder_of_infix (isDigit_digitChar_of_lt (by omega))
      (infix_substitute hfew (by omega) hunambiguous hoccurs)
    rw [expand_eq hfound hshell, expandText_eq, hfill, fillEach_eq_substitute hdollar hunambiguous,
      finish, if_pos hleft]
  · intro henough
    have hnone := hasPlaceholder_of_not_mem (not_mem_substitute hdollar hcount henough h)
    rw [expand_eq hfound hshell, expandText_eq, fill_of_numbered hdollar hcount henough h, finish,
      if_neg (by rw [hnone]; exact Bool.false_ne_true)]

theorem numbered_move : Numbered 2 "mv $2 $1.$2".toList := by
  refine ⟨fun rest h ↦ ?_, fun number hpos hle ↦ ?_⟩
  · simp [List.suffix_cons_iff] at h
    rcases h with rfl | rfl | rfl
    · exact ⟨2, " $1.$2".toList, by decide, by decide, rfl, by simp⟩
    · exact ⟨1, ".$2".toList, by decide, by decide, rfl, by simp⟩
    · exact ⟨2, [], by decide, by decide, rfl, by simp⟩
  · obtain rfl | rfl : number = 1 ∨ number = 2 := by omega
    · exact ⟨"mv $2 ".toList, ".$2".toList, rfl⟩
    · exact ⟨"mv ".toList, " $1.$2".toList, rfl⟩

theorem expand_uses_each_argument_move :
    let text := "mv $2 $1.$2"
    let arguments := ["a", "b c", "'", "d"]
    let filled := String.ofList (substitute arguments text.toList)
    (Table.mk [("mv", text)]).get? "mv" = some text ∧ isShell text = false ∧ 2 ≤ 9 ∧
      Numbered 2 text.toList ∧ (∀ argument ∈ arguments, '$' ∉ argument.toList) ∧
      2 ≤ arguments.length ∧
      expand ⟨[("mv", text)]⟩ (.ok "/bin/sh") ("glab" :: "mv" :: arguments) =
        match Words.split filled with
        | .error cause => .error (.tokenize filled cause)
        | .ok words => .ok ⟨words ++ ["'", "d"], false⟩ := by
  intro text arguments filled
  have hfound : (Table.mk [("mv", text)]).get? "mv" = some text := by decide
  have hshell : isShell text = false := by decide
  have hdollar : ∀ argument ∈ arguments, '$' ∉ argument.toList := by decide
  have henough : 2 ≤ arguments.length := by decide
  exact ⟨hfound, hshell, by decide, numbered_move, hdollar, henough,
    (expand_uses_each_argument hfound hshell (by decide) numbered_move hdollar).2 henough⟩

end

end LayeredConfig.Alias
