import Mathlib
import LayeredConfig.Proofs.Document.IdleLines

/-!
# Comments do not change the meaning

A blank line or a comment line may be put between any two lines of a text that can be read. What
nests in what is told by the lines of content alone, and every part of the reader passes over the
comments before the line it reads. So the tree stays as it was, up to its comments, and the new
comment stands among the old ones where it was put.
-/

namespace LayeredConfig

open Text

namespace Tree

/-! ## Trees without their comments -/

mutual

/-- The tree with its texts and styles, and without its comments. -/
def uncommented : Tree → Tree
  | scalar _ text style => scalar {} text style
  | mapping _ entries => mapping {} (uncommentedEntries entries)
  | sequence _ items => sequence {} (uncommentedItems items)

def uncommentedEntries : List (Tree × Tree) → List (Tree × Tree)
  | [] => []
  | (key, value) :: rest => (uncommented key, uncommented value) :: uncommentedEntries rest

def uncommentedItems : List Tree → List Tree
  | [] => []
  | item :: rest => uncommented item :: uncommentedItems rest

end

@[simp] theorem uncommented_withComments (c : Comments) (t : Tree) :
    (t.withComments c).uncommented = t.uncommented := by
  cases t <;> rfl

@[simp] theorem uncommented_withHead (lines : List String) (t : Tree) :
    (t.withHead lines).uncommented = t.uncommented :=
  uncommented_withComments _ t

@[simp] theorem uncommented_withLine (line : Option String) (t : Tree) :
    (t.withLine line).uncommented = t.uncommented :=
  uncommented_withComments _ t

@[simp] theorem uncommented_withFoot (lines : List String) (t : Tree) :
    (t.withFoot lines).uncommented = t.uncommented :=
  uncommented_withComments _ t

end Tree

namespace Reader

open Inline LayeredConfig.Tree

/-! ## Reading between the same lines of content -/

/-- Two readings come to the same: to related values before the same lines of content, or to the
same fault. -/
def Alike {α : Type} {bound bound' : Nat} (R : α → α → Prop) :
    Except SyntaxError (Parsed α bound) → Except SyntaxError (Parsed α bound') → Prop
  | .ok parsed, .ok parsed' =>
    R parsed.value parsed'.value ∧ contents parsed.rest = contents parsed'.rest
  | .error e, .error e' => e.fault = e'.fault
  | _, _ => False

section

variable {α β : Type} {bound bound' bound₂ bound₂' : Nat} {R : α → α → Prop} {S : β → β → Prop}
  {result : Except SyntaxError (Parsed α bound)} {result' : Except SyntaxError (Parsed α bound')}

theorem Alike.bind {next : Parsed α bound → Except SyntaxError (Parsed β bound₂)}
    {next' : Parsed α bound' → Except SyntaxError (Parsed β bound₂')} (h : Alike R result result')
    (hnext : ∀ parsed parsed', R parsed.value parsed'.value →
      contents parsed.rest = contents parsed'.rest → Alike S (next parsed) (next' parsed')) :
    Alike S (result >>= next) (result' >>= next') := by
  cases result with
  | error e =>
    cases result' with
    | error e' => exact h
    | ok parsed' => exact h.elim
  | ok parsed =>
    cases result' with
    | error e' => exact h.elim
    | ok parsed' => exact hnext parsed parsed' h.1 h.2

/-- What is read within one line does not depend on its number. -/
theorem alike_onLine {γ : Type} {number number' : Nat} (read : Except SyntaxFault γ)
    {next : γ → Except SyntaxError (Parsed β bound)}
    {next' : γ → Except SyntaxError (Parsed β bound')}
    (hnext : ∀ found, read = .ok found → Alike S (next found) (next' found)) :
    Alike S (onLine number read >>= next) (onLine number' read >>= next') := by
  cases read with
  | error fault => exact rfl
  | ok found => exact hnext found rfl

theorem Alike.exists_ok {parsed : Parsed α bound} (h : Alike R result result')
    (hok : result = .ok parsed) :
    ∃ parsed', result' = .ok parsed' ∧ R parsed.value parsed'.value ∧
      contents parsed.rest = contents parsed'.rest := by
  subst hok
  cases result' with
  | error e' => exact h.elim
  | ok parsed' => exact ⟨parsed', rfl, h⟩

end

mutual

theorem entries_alike {indent : Nat} {src src' : Source} (h : contents src = contents src') :
    Alike (fun found found' ↦ uncommentedEntries found = uncommentedEntries found')
      (entries indent src) (entries indent src') := by
  rcases next?_of_contents h with ⟨hnone, hnone'⟩ |
    ⟨column, text, comments, number, rest, comments', number', rest', hnext, hnext', hrest⟩
  · rw [entries_of_none hnone, entries_of_none hnone']
    exact ⟨rfl, h⟩
  · have hlt : weight rest + 2 * text.length < weight src := weight_of_next? hnext
    rw [entries_of_next? hnext, entries_of_next? hnext']
    split
    · exact ⟨rfl, h⟩
    split
    · exact rfl
    split
    · exact rfl
    refine alike_onLine _ fun found _ ↦ ?_
    cases found with
    | none => exact rfl
    | some key =>
      refine (value_alike _ hrest).bind fun first first' hfirst hbehind ↦ ?_
      have hle : weight first.rest ≤ weight rest := first.le
      refine (entries_alike hbehind).bind fun more more' hmore hbehind' ↦ ⟨?_, hbehind'⟩
      dsimp only
      rw [uncommentedEntries, uncommentedEntries, hfirst, hmore]
      rfl
termination_by (weight src, 0)

theorem value_alike {indent : Nat} {number number' : Nat} {src src' : Source} (text : List Char)
    (h : contents src = contents src') :
    Alike (fun found found' ↦ found.1.uncommented = found'.1.uncommented)
      (value indent text number src) (value indent text number' src') := by
  unfold value
  cases placement text with
  | inline => exact alike_onLine _ fun found _ ↦ ⟨rfl, h⟩
  | below comment =>
    dsimp only
    rcases next?_of_contents h with ⟨hnone, hnone'⟩ |
      ⟨column, text, comments, number, rest, comments', number', rest', hnext, hnext', -⟩
    · rw [hnone, hnone']
      exact ⟨rfl, h⟩
    · rw [hnext, hnext']
      dsimp only
      split
      · refine (items_alike h).bind fun found found' hfound hbehind ↦ ⟨?_, hbehind⟩
        exact congrArg (Tree.sequence {}) hfound
      · exact (nested_alike h).bind fun found found' hfound hbehind ↦ ⟨hfound, hbehind⟩
termination_by (weight src, 2)

theorem nested_alike {indent : Nat} {src src' : Source} (h : contents src = contents src') :
    Alike (fun found found' ↦ found.uncommented = found'.uncommented)
      (nested indent src) (nested indent src') := by
  unfold nested
  rcases next?_of_contents h with ⟨hnone, hnone'⟩ |
    ⟨column, text, comments, number, rest, comments', number', rest', hnext, hnext', -⟩
  · rw [hnone, hnone']
    exact ⟨rfl, h⟩
  · rw [hnext, hnext']
    dsimp only
    split
    · exact ⟨rfl, h⟩
    split
    · refine (items_alike h).bind fun found found' hfound hbehind ↦ ⟨?_, hbehind⟩
      exact congrArg (Tree.sequence {}) hfound
    · refine (entries_alike h).bind fun found found' hfound hbehind ↦ ⟨?_, hbehind⟩
      exact congrArg (Tree.mapping {}) hfound
termination_by (weight src, 1)

theorem items_alike {indent : Nat} {src src' : Source} (h : contents src = contents src') :
    Alike (fun found found' ↦ uncommentedItems found = uncommentedItems found')
      (items indent src) (items indent src') := by
  rcases next?_of_contents h with ⟨hnone, hnone'⟩ |
    ⟨column, text, comments, number, rest, comments', number', rest', hnext, hnext', hrest⟩
  · rw [items_of_none hnone, items_of_none hnone']
    exact ⟨rfl, h⟩
  · have hlt : weight rest + 2 * text.length < weight src := weight_of_next? hnext
    cases hbody : itemBody? text with
    | none =>
      rw [items_of_no_dash hnext hbody, items_of_no_dash hnext' hbody]
      split
      · exact ⟨rfl, h⟩
      split
      · exact rfl
      · exact ⟨rfl, h⟩
    | some body =>
      rw [items_of_dash hnext hbody, items_of_dash hnext' hbody]
      split
      · exact ⟨rfl, h⟩
      split
      · exact rfl
      refine (item_alike hrest).bind fun first first' hfirst hbehind ↦ ?_
      have hle : weight first.rest ≤ weight rest + 2 * text.length := first.le
      refine (items_alike hbehind).bind fun more more' hmore hbehind' ↦ ⟨?_, hbehind'⟩
      dsimp only
      rw [uncommentedItems, uncommentedItems, uncommented_withHead, uncommented_withHead, hfirst,
        hmore]
termination_by (weight src, 0)

theorem item_alike {indent column : Nat} {text body : List Char} {comments comments' : List String}
    {number number' : Nat} {rest rest' : Source} {hbody : body.length < text.length}
    (h : contents rest = contents rest') :
    Alike (fun found found' ↦ found.uncommented = found'.uncommented)
      (item indent ⟨comments, number, column, text, rest⟩ body hbody)
      (item indent ⟨comments', number', column, text, rest'⟩ body hbody) := by
  unfold item
  refine alike_onLine _ fun start _ ↦ ?_
  cases start with
  | below comment =>
    refine (nested_alike h).bind fun found found' hfound hbehind ↦ ⟨?_, hbehind⟩
    dsimp only
    rw [uncommented_withLine, uncommented_withLine, hfound]
  | key =>
    have hfirst (number number' : Nat) (line : Nat × List Char) :
        contents ((number, .content line.1 line.2) :: rest) =
          contents ((number', .content line.1 line.2) :: rest') :=
      congrArg (line :: ·) h
    refine (entries_alike (hfirst _ _ (_, body))).bind fun found found' hfound hbehind ↦
      ⟨?_, hbehind⟩
    exact congrArg (Tree.mapping {}) hfound
  | inline found =>
    exact ⟨rfl, h⟩
termination_by (weight rest + 2 * text.length, 0)
decreasing_by
  · exact Prod.Lex.left _ _ (by omega)
  · exact Prod.Lex.left _ _ (by simp only [weight, lineWeight]; omega)

end

theorem root_of_contents {indent : Nat} {text : List Char} {comments comments' : List String}
    {number number' : Nat} {src src' rest rest' left : Source} {tree : Tree}
    (hsrc : contents src = contents src') (hrest : contents rest = contents rest')
    (h : root ⟨comments, number, indent, text, rest⟩ src = .ok (tree, left)) :
    ∃ tree' left', root ⟨comments', number', indent, text, rest'⟩ src' = .ok (tree', left') ∧
      tree'.uncommented = tree.uncommented ∧ contents left' = contents left := by
  unfold root at h ⊢
  dsimp only at h ⊢
  split at h
  · cases h
  rename_i hitem
  rw [if_neg hitem]
  split at h
  · obtain ⟨⟨value, comment⟩, hread, h⟩ := bind_eq_ok_iff.1 h
    obtain ⟨rfl, rfl⟩ := Prod.mk.inj (Except.ok.inj h)
    have hread' : onLine number' (inlineValue _) = .ok (value, comment) :=
      mapError_eq_ok_iff.2 (mapError_eq_ok_iff.1 hread)
    refine ⟨_, _, bind_eq_ok_iff.2 ⟨_, hread', rfl⟩, ?_, hrest.symm⟩
    rw [uncommented_withComments, uncommented_withComments]
  · obtain ⟨parsed, hentries, h⟩ := bind_eq_ok_iff.1 h
    obtain ⟨rfl, rfl⟩ := Prod.mk.inj (Except.ok.inj h)
    obtain ⟨parsed', hentries', hfound, hbehind⟩ := (entries_alike hsrc).exists_ok hentries
    exact ⟨_, _, bind_eq_ok_iff.2 ⟨_, hentries', rfl⟩, congrArg (Tree.mapping {}) hfound.symm,
      hbehind.symm⟩

/-- Texts with the same lines of content are both read or both not, as the same tree up to its
comments. -/
theorem read_of_contents {text text' : List Char} {src src' : Source} {content : Content}
    (hsrc : sourceOf 1 (lines text) = .ok src) (hsrc' : sourceOf 1 (lines text') = .ok src')
    (h : contents src = contents src') (hread : read text = .ok content) :
    ∃ content', read text' = .ok content' ∧
      content'.root.map uncommented = content.root.map uncommented := by
  unfold read at hread ⊢
  rw [hsrc, ok_bind] at hread
  rw [hsrc', ok_bind]
  rcases next?_of_contents h with ⟨hnone, hnone'⟩ |
    ⟨indent, text, comments, number, rest, comments', number', rest', hnext, hnext', hrest⟩
  · rw [hnone] at hread
    rw [hnone']
    obtain rfl := Except.ok.inj hread
    exact ⟨_, rfl, rfl⟩
  · rw [hnext] at hread
    rw [hnext']
    obtain ⟨⟨tree, left⟩, hroot, hread⟩ := bind_eq_ok_iff.1 hread
    obtain ⟨tree', left', hroot', htree, hleft⟩ := root_of_contents h hrest hroot
    dsimp only at hread ⊢
    rw [hroot', ok_bind]
    dsimp only
    rcases next?_of_contents hleft with ⟨hnone', hnone⟩ |
      ⟨indent, text, comments, number, rest, comments', number', rest', -, hnext, -⟩
    · rw [hnone] at hread
      rw [hnone']
      obtain rfl := Except.ok.inj hread
      exact ⟨_, rfl, congrArg some htree⟩
    · rw [hnext] at hread
      cases hread

/-- A missing line feed behind the last line makes no difference. -/
theorem sourceOf_closed (text : List Char) :
    sourceOf 1 (lines (closed text)) = sourceOf 1 (lines text) :=
  sourceOf_congr 1 (map_read_lines_closed text)

end Reader

namespace Document

open LayeredConfig.Tree

theorem tree?_of_read {text : String} {content : Reader.Content}
    (h : Reader.read text.toList = .ok content) :
    ∃ d t, parse text = .ok d ∧ d.tree? = some t ∧
      t.uncommented = (content.root.map uncommented).getD (.mapping {} []) := by
  rw [parse, h, ok_bind]
  obtain ⟨root, foot⟩ := content
  cases root with
  | none => exact ⟨_, _, rfl, rfl, rfl⟩
  | some tree =>
    exact ⟨_, _, rfl, treeAt?_addTree empty _, uncommented_withFoot foot tree⟩

/-- The lines of a text with one line without content more. -/
theorem sourceOf_inserted {front line back : List Char} {src : Reader.Source}
    (hfront : IsClosed front) (hidle : Line.Idle line) (hline : '\n' ∉ line)
    (h : Reader.sourceOf 1 (lines (front ++ back)) = .ok src) :
    ∃ above below below' number indent, Reader.sourceOf 1 (lines front) = .ok above ∧
      src = above ++ below ∧
      Reader.sourceOf 1 (lines (front ++ line ++ '\n' :: back)) =
        .ok (above ++ (number, .comment indent (Line.remark line)) :: below') ∧
      Reader.contents below' = Reader.contents below ∧
      Reader.lineComments below' = Reader.lineComments below ∧
      Reader.fileComments below' = Reader.fileComments below := by
  rw [lines_append hfront, Reader.sourceOf_append] at h
  obtain ⟨above, habove, h⟩ := bind_eq_ok_iff.1 h
  obtain ⟨below, hbelow, h⟩ := bind_eq_ok_iff.1 h
  obtain rfl := Except.ok.inj h
  obtain ⟨below', hbelow', hsame⟩ :=
    Reader.sourceOf_renumber (1 + (lines front).length + 1) hbelow
  obtain ⟨indent, hread⟩ := Line.read_comment_iff.1 hidle
  have hinserted : lines (line ++ '\n' :: back) = dropReturn line :: lines back :=
    splitLines_append hline [] back
  refine ⟨above, below, below', 1 + (lines front).length, indent, habove, rfl, ?_, hsame⟩
  rw [List.append_assoc, lines_append hfront, hinserted, Reader.sourceOf_append, habove, ok_bind,
    Reader.sourceOf, Line.read_dropReturn, hread]
  dsimp only
  rw [hbelow']
  rfl

/-- A line without content may stand between any two lines, before the first and behind the last:
the text is read as it was, but for one comment more in its place. -/
theorem parse_of_inserted_line {text text' : String} {d : Document} {front line back : List Char}
    (h : parse text = .ok d) (hfront : IsClosed front) (hidle : Line.Idle line)
    (hline : '\n' ∉ line) (htext : closed text.toList = front ++ back)
    (htext' : closed text'.toList = front ++ line ++ '\n' :: back) :
    ∃ d' t t' behind, parse text' = .ok d' ∧ d.tree? = some t ∧ d'.tree? = some t' ∧
      t'.uncommented = t.uncommented ∧
      t.fileComments = Reader.commentTexts (String.ofList front) ++ behind ∧
      t'.fileComments = Reader.commentTexts (String.ofList front) ++
        String.ofList (Line.remark line) :: behind := by
  obtain ⟨content, hread, hd⟩ := bind_eq_ok_iff.1 h
  obtain ⟨src, hsrc, -⟩ := bind_eq_ok_iff.1 hread
  have hclosed : Reader.sourceOf 1 (lines (front ++ back)) = .ok src := by
    rw [← htext, Reader.sourceOf_closed, hsrc]
  obtain ⟨above, below, below', number, indent, habove, rfl, hsrc', hcontents, hlines, hfile⟩ :=
    sourceOf_inserted hfront hidle hline hclosed
  rw [← htext', Reader.sourceOf_closed] at hsrc'
  have hsame : Reader.contents (above ++ below) =
      Reader.contents (above ++ (number, .comment indent (Line.remark line)) :: below') := by
    rw [Reader.contents_append, Reader.contents_append, ← hcontents]
    rfl
  obtain ⟨content', hread', hroot⟩ := Reader.read_of_contents hsrc hsrc' hsame hread
  obtain ⟨d₁, t, hparse, htree, huncommented⟩ := tree?_of_read hread
  obtain ⟨d', t', hparse', htree', huncommented'⟩ := tree?_of_read hread'
  obtain rfl : d = d₁ := Except.ok.inj (h.symm.trans hparse)
  obtain ⟨t₁, htree₁, htexts⟩ := commentTexts_of_parse h
  obtain ⟨t₂, htree₂, htexts'⟩ := commentTexts_of_parse hparse'
  obtain rfl := Option.some.inj (htree.symm.trans htree₁)
  obtain rfl := Option.some.inj (htree'.symm.trans htree₂)
  refine ⟨d', t, t', Reader.commentsBehind above below, hparse', htree, htree', ?_, ?_, ?_⟩
  · rw [huncommented, huncommented', hroot]
  · rw [← htexts, Reader.commentTexts, Reader.commentTexts, hsrc, String.toList_ofList, habove]
    exact Reader.fileComments_append above below
  · rw [← htexts', Reader.commentTexts, Reader.commentTexts, hsrc', String.toList_ofList, habove]
    dsimp only
    rw [Reader.fileComments_append, Reader.commentsBehind_comment, Reader.commentsBehind,
      Reader.commentsBehind, hlines, hfile]

/-- A comment between a key and its only item. -/
theorem parse_of_inserted_line_item :
    ∃ d d' t t' behind, parse "h:\n- a: b # x\n# y" = .ok d ∧
      parse "h:\n  # new \n- a: b # x\n# y" = .ok d' ∧ d.tree? = some t ∧ d'.tree? = some t' ∧
      t'.uncommented = t.uncommented ∧
      t.fileComments = Reader.commentTexts "h:\n" ++ behind ∧
      t'.fileComments = Reader.commentTexts "h:\n" ++ "# new" :: behind := by
  obtain ⟨d, hparse⟩ : ∃ d, parse "h:\n- a: b # x\n# y" = .ok d := ⟨_, by cbv⟩
  have hfront : IsClosed "h:\n".toList := by decide +kernel
  have hidle : Line.Idle "  # new ".toList := by decide +kernel
  have htext : closed "h:\n- a: b # x\n# y".toList =
      "h:\n".toList ++ "- a: b # x\n# y\n".toList := by decide +kernel
  have htext' : closed "h:\n  # new \n- a: b # x\n# y".toList =
      "h:\n".toList ++ "  # new ".toList ++ '\n' :: "- a: b # x\n# y\n".toList := by
    decide +kernel
  obtain ⟨d', t, t', behind, hparse', hrest⟩ :=
    parse_of_inserted_line hparse hfront hidle (by decide +kernel) htext htext'
  have hfrontText : String.ofList "h:\n".toList = "h:\n" := String.ofList_toList
  have hremark : String.ofList (Line.remark "  # new ".toList) = "# new" := by decide +kernel
  rw [hfrontText, hremark] at hrest
  exact ⟨d, d', t, t', behind, hparse, hparse', hrest⟩

end Document

end LayeredConfig
