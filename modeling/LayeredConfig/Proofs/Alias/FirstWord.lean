import Mathlib
import LayeredConfig.Alias.CommandTree
import LayeredConfig.Proofs.Alias.Expansion
import LayeredConfig.Proofs.Outcome

/-!
# The first word of an expansion

Arguments may bring quotes, number signs and backslashes along and so split whatever stands behind
them in another way. The first word is out of their reach when it has no dollar sign: a placeholder
before it stands in a comment, which goes on until a line feed that no argument has. So an alias
whose expansion started with a command when it was defined always leads to this command.
-/

namespace LayeredConfig

namespace Words

/-! ## Reading the first word -/

/-- What has been read of the current word. -/
def Mode.word : Mode → List Char
  | gap | comment => []
  | bare word | escaped word | single word | double word | doubleEscaped word => word

/-- The first word that ends in a text that is read from a mode on. -/
def firstWord? (mode : Mode) : List Char → Option (List Char)
  | [] =>
    match mode with
    | .bare word => some word
    | _ => none
  | c :: rest =>
    match step mode c with
    | (some word, _) => some word
    | (none, mode) => firstWord? mode rest

section

variable {mode : Mode} {c : Char} {front text word : List Char} {words : List (List Char)}

theorem scan_cons_eq_ok (h : scan mode (c :: text) = .ok words) :
    ∃ more, scan (step mode c).2 text = .ok more ∧ words = (step mode c).1.toList ++ more := by
  rw [scan] at h
  generalize step mode c = next at h ⊢
  obtain ⟨more, hmore, h⟩ := bind_eq_ok_iff.1 h
  exact ⟨more, hmore, (Except.ok.inj h).symm⟩

theorem firstWord?_of_scan (h : scan mode text = .ok words) :
    firstWord? mode text = words.head? := by
  induction text generalizing mode words with
  | nil =>
    rw [scan] at h
    cases mode <;> cases h <;> rfl
  | cons c text ih =>
    obtain ⟨more, hmore, rfl⟩ := scan_cons_eq_ok h
    rw [firstWord?]
    generalize step mode c = next at hmore ⊢
    obtain ⟨ended, mode'⟩ := next
    cases ended with
    | some word => rfl
    | none => exact ih hmore

/-! ## Words only grow -/

theorem word_bareStep (word : List Char) (c : Char) : word <+: (bareStep word c).word := by
  unfold bareStep
  split
  · exact List.prefix_refl word
  · exact List.prefix_refl word
  · exact List.prefix_refl word
  · exact List.prefix_append word _

/-- A character ends the current word, or it adds to it or leaves it as it is. -/
theorem word_step (mode : Mode) (c : Char) :
    (step mode c).1 = some mode.word ∨
      ((step mode c).1 = none ∧ mode.word <+: (step mode c).2.word) := by
  cases mode with
  | gap =>
    refine .inr ⟨?_, List.nil_prefix⟩
    rw [step]
    split
    · rfl
    · split <;> rfl
  | comment => exact .inr ⟨rfl, List.nil_prefix⟩
  | bare word =>
    rw [step]
    split
    · exact .inl rfl
    · exact .inr ⟨rfl, word_bareStep word c⟩
  | escaped word =>
    refine .inr ⟨rfl, ?_⟩
    simp only [step, Mode.word]
    split <;> simp
  | single word =>
    refine .inr ⟨rfl, ?_⟩
    simp only [step]
    split <;> simp [Mode.word]
  | double word =>
    refine .inr ⟨rfl, ?_⟩
    simp only [step]
    split
    · simp [Mode.word]
    · split <;> simp [Mode.word]
  | doubleEscaped word =>
    refine .inr ⟨rfl, ?_⟩
    simp only [step, Mode.word]
    split
    · simp
    · split <;> simp

theorem word_prefix_of_firstWord? (h : firstWord? mode text = some word) : mode.word <+: word := by
  induction text generalizing mode with
  | nil =>
    cases mode <;> cases h
    exact List.prefix_refl _
  | cons c text ih =>
    rw [firstWord?] at h
    have hstep := word_step mode c
    generalize step mode c = next at h hstep
    obtain ⟨ended, mode'⟩ := next
    rcases hstep with rfl | ⟨rfl, hgrows⟩
    · obtain rfl := Option.some.inj h
      exact List.prefix_refl _
    · exact hgrows.trans (ih h)

/-- Outside comments a dollar sign is always a part of the word. -/
theorem mem_word_step (h : mode ≠ .comment) :
    (step mode '$').1 = none ∧ '$' ∈ (step mode '$').2.word := by
  cases mode with
  | comment => exact absurd rfl h
  | gap => exact ⟨rfl, List.mem_singleton_self _⟩
  | bare word =>
    have hbare : step (.bare word) '$' = (none, .bare (word ++ ['$'])) := rfl
    rw [hbare]
    exact ⟨rfl, List.mem_append_right _ (List.mem_singleton_self _)⟩
  | escaped word | single word | double word | doubleEscaped word =>
    exact ⟨rfl, List.mem_append_right _ (List.mem_singleton_self _)⟩

/-- A comment goes on until a line feed. -/
theorem firstWord?_comment_append (h : '\n' ∉ front) :
    firstWord? .comment (front ++ text) = firstWord? .comment text := by
  induction front with
  | nil => rfl
  | cons c front ih =>
    rw [List.mem_cons, not_or] at h
    rw [List.cons_append, firstWord?, step, if_neg (Ne.symm h.1)]
    exact ih h.2

end

end Words

namespace CommandTree

/-- The texts that a command answers to. -/
def spellings : CommandTree → List String
  | command name aliases _ => name :: aliases

theorem mem_spellings_of_answersTo {token : String} {sub : CommandTree}
    (h : sub.answersTo token = true) : token ∈ sub.spellings := by
  obtain ⟨name, aliases, subcommands⟩ := sub
  rw [answersTo, Bool.or_eq_true, beq_iff_eq, List.contains_iff_mem] at h
  exact List.mem_cons.2 (h.imp_left Eq.symm)

variable {tree : CommandTree} {tokens : List String}

theorem matched_of_head? {token : String} {sub : CommandTree} (h : tokens.head? = some token)
    (hfound : tree.find? token = some sub) :
    (tree.traverse tokens).matched.head? = some sub.name := by
  obtain ⟨rest, rfl⟩ := List.head?_eq_some_iff.1 h
  rw [traverse, hfound]
  rfl

theorem foundCommand_iff : (tree.traverse tokens).foundCommand = true ↔
    ∃ token sub, tokens.head? = some token ∧ tree.find? token = some sub := by
  constructor
  · intro h
    cases tokens with
    | nil => cases h
    | cons token rest =>
      cases hfound : tree.find? token with
      | none =>
        rw [traverse, hfound] at h
        cases h
      | some sub => exact ⟨token, sub, rfl, hfound⟩
  · rintro ⟨token, sub, hhead, hfound⟩
    have hmatched := matched_of_head? hhead hfound
    rw [Traversal.foundCommand]
    cases hlist : (tree.traverse tokens).matched with
    | nil =>
      rw [hlist] at hmatched
      cases hmatched
    | cons => rfl

end CommandTree

namespace Alias

open Words

section

variable {index : Nat} {replacement word : List Char}

/-! ## Arguments do not reach the first word -/

/-- A placeholder before the first word stands in a comment, and so does what it is replaced
with. -/
theorem firstWord?_replaceFrom {mode : Mode} {text : List Char}
    (h : firstWord? mode text = some word) (hdollar : '$' ∉ word) (hline : '\n' ∉ replacement) :
    firstWord? mode (replaceFrom (placeholder index) replacement 0 text) = some word := by
  match text with
  | [] => exact h
  | c :: text =>
    by_cases hprefix : placeholder index <+: c :: text
    · obtain ⟨after, happend⟩ := hprefix
      have hne : placeholder index ≠ [] := List.cons_ne_nil _ _
      have hnumber : '\n' ∉ placeholder index := by
        rw [placeholder, List.mem_cons, not_or]
        exact ⟨by decide, fun hmem ↦ absurd (isDigit_of_mem_toString hmem) (by decide)⟩
      have hshorter : after.length < (c :: text).length := by
        rw [← happend, List.length_append]
        exact Nat.lt_add_of_pos_left (List.length_pos_iff.2 hne)
      have hmode : mode = .comment := by
        refine Decidable.byContradiction fun hmode ↦ ?_
        obtain ⟨hnone, hmem⟩ := mem_word_step hmode
        obtain rfl : '$' = c := (List.cons.inj happend).1
        rw [firstWord?] at h
        generalize step mode '$' = next at h hnone hmem
        obtain ⟨ended, mode'⟩ := next
        obtain rfl : ended = none := hnone
        exact hdollar ((word_prefix_of_firstWord? h).subset hmem)
      subst hmode
      rw [← happend, firstWord?_comment_append hnumber] at h
      rw [← happend, replaceFrom_pattern hne, firstWord?_comment_append hline]
      exact firstWord?_replaceFrom h hdollar hline
    · rw [replaceFrom_cons hprefix]
      rw [firstWord?] at h ⊢
      generalize step mode c = next at h ⊢
      obtain ⟨ended, mode'⟩ := next
      cases ended with
      | some => exact h
      | none => exact firstWord?_replaceFrom h hdollar hline
termination_by text.length
decreasing_by
  · exact hshorter
  · exact Nat.lt_succ_self text.length

theorem firstWord?_fillEach {text : List Char} {arguments : List String}
    (h : firstWord? .gap text = some word) (hdollar : '$' ∉ word)
    (hlines : ∀ argument ∈ arguments, '\n' ∉ argument.toList) :
    firstWord? .gap (fillEach index text arguments) = some word := by
  induction arguments generalizing index text with
  | nil => exact h
  | cons argument rest ih =>
    obtain ⟨hline, hrest⟩ := List.forall_mem_cons.1 hlines
    exact ih (firstWord?_replaceFrom h hdollar hline) hrest

end

section

variable {table : Table} {shell : Except ShellError String} {program name expansion : String}
  {arguments : List String} {tree : CommandTree} {result : Expansion}

theorem firstWord?_of_split {text : String} {words : List String}
    (h : split text = .ok words) :
    firstWord? .gap text.toList = words.head?.map String.toList := by
  obtain ⟨chars, hscan, h⟩ := bind_eq_ok_iff.1 h
  obtain rfl := Except.ok.inj h
  rw [firstWord?_of_scan hscan, List.head?_map, Option.map_map]
  cases chars <;> simp

/-- A definition that is no shell alias starts with a word that a command answers to. -/
theorem exists_command_of_checkDefinition (h : checkDefinition tree name expansion = .ok ())
    (hshell : isShell expansion = false) :
    ∃ words word sub, split expansion = .ok words ∧ words.head? = some word ∧
      tree.find? word = some sub := by
  unfold checkDefinition at h
  rw [hshell] at h
  split at h
  · cases h
  · rw [if_neg Bool.false_ne_true] at h
    split at h
    · cases h
    · rename_i words hwords
      split at h
      · rename_i hfound
        obtain ⟨word, sub, hhead, hsub⟩ := CommandTree.foundCommand_iff.1 hfound
        exact ⟨words, word, sub, hwords, hhead, hsub⟩
      · cases h

/-- An invocation whose alias was accepted for a command leads to this command, whatever its
arguments make of the text behind. -/
theorem expand_reaches_command
    (hplain : ∀ sub ∈ tree.subcommands, ∀ spelling ∈ sub.spellings, '$' ∉ spelling.toList)
    (hdefined : checkDefinition tree name expansion = .ok ()) (hshell : isShell expansion = false)
    (hfound : table.get? name = some expansion)
    (hlines : ∀ argument ∈ arguments, '\n' ∉ argument.toList)
    (hexpand : expand table shell (program :: name :: arguments) = .ok result) :
    ∃ words word sub, split expansion = .ok words ∧
      words.head? = some word ∧ result.arguments.head? = some word ∧
      tree.find? word = some sub ∧
      (tree.traverse words).matched.head? = some sub.name ∧
      (tree.traverse result.arguments).foundCommand = true ∧
      (tree.traverse result.arguments).matched.head? = some sub.name := by
  obtain ⟨words, word, sub, hsplit, hhead, hsub⟩ :=
    exists_command_of_checkDefinition hdefined hshell
  have hdollar : '$' ∉ word.toList := by
    have hanswers := List.find?_some hsub
    exact hplain sub (List.mem_of_find?_eq_some hsub) word
      (CommandTree.mem_spellings_of_answersTo hanswers)
  obtain ⟨behind, hfill, -⟩ := fill_eq 1 expansion.toList arguments
  rw [expand_eq hfound hshell, expandText_eq, hfill, finish] at hexpand
  split at hexpand
  · cases hexpand
  · split at hexpand
    · cases hexpand
    · rename_i filled hfilled
      obtain rfl := Except.ok.inj hexpand
      have hfirst := firstWord?_of_split hsplit
      rw [hhead, Option.map_some] at hfirst
      have hkept := firstWord?_of_split hfilled
      rw [String.toList_ofList, firstWord?_fillEach hfirst hdollar hlines] at hkept
      have hresult : (filled ++ behind).head? = some word := by
        cases filled with
        | nil => cases hkept
        | cons other filled =>
          have heq := Option.some.inj hkept
          rw [List.cons_append, List.head?_cons, String.toList_inj.1 heq]
      exact ⟨words, word, sub, hsplit, hhead, hresult, hsub,
        CommandTree.matched_of_head? hhead hsub,
        CommandTree.foundCommand_iff.2 ⟨word, sub, hresult, hsub⟩,
        CommandTree.matched_of_head? hresult hsub⟩

theorem expand_reaches_command_merge :
    let tree := CommandTree.command "glab" [] [.command "issue" [] [],
      .command "mr" ["merge"] [.command "checkout" [] []]]
    let text := "# $1\n'me'rge checkout --to=$1 #$2"
    let arguments := ["a \"b", "c\" d"]
    let table := Table.mk [("co", text)]
    (∀ sub ∈ tree.subcommands, ∀ spelling ∈ sub.spellings, '$' ∉ spelling.toList) ∧
      checkDefinition tree "co" text = .ok () ∧ isShell text = false ∧
      table.get? "co" = some text ∧ (∀ argument ∈ arguments, '\n' ∉ argument.toList) ∧
      ∃ result, expand table (.ok "/bin/sh") ("glab" :: "co" :: arguments) = .ok result ∧
        ∃ words word sub, split text = .ok words ∧ words.head? = some word ∧
          result.arguments.head? = some word ∧ tree.find? word = some sub ∧
          (tree.traverse words).matched.head? = some sub.name ∧
          (tree.traverse result.arguments).foundCommand = true ∧
          (tree.traverse result.arguments).matched.head? = some sub.name := by
  have hsplit : split "# $1\n'me'rge checkout --to=$1 #$2" =
      .ok ["merge", "checkout", "--to=$1"] := by cbv
  have hdefined : checkDefinition (.command "glab" [] [.command "issue" [] [],
      .command "mr" ["merge"] [.command "checkout" [] []]]) "co"
      "# $1\n'me'rge checkout --to=$1 #$2" = .ok () := by
    rw [checkDefinition, hsplit]
    rfl
  have hexpand : expand ⟨[("co", "# $1\n'me'rge checkout --to=$1 #$2")]⟩ (.ok "/bin/sh")
      ["glab", "co", "a \"b", "c\" d"] =
      .ok ⟨["merge", "checkout", "--to=a", "b #c", "d"], false⟩ := by cbv
  intro tree text arguments table
  have hplain : ∀ sub ∈ tree.subcommands, ∀ spelling ∈ sub.spellings, '$' ∉ spelling.toList := by
    simp [tree, CommandTree.subcommands, CommandTree.spellings]
  have hshell : isShell text = false := by decide
  have hfound : table.get? "co" = some text := by decide
  have hlines : ∀ argument ∈ arguments, '\n' ∉ argument.toList := by decide
  exact ⟨hplain, hdefined, hshell, hfound, hlines, _, hexpand,
    expand_reaches_command hplain hdefined hshell hfound hlines hexpand⟩

end

end Alias

end LayeredConfig
