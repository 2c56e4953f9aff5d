import LayeredConfig.Proofs.Document.Inline
import LayeredConfig.Proofs.Document.Lines

/-!
# Trees that can be written

A tree can be written when its keys are scalars, its comments fit on lines of their own or behind
a value, and no comments stand at the foot of a nested mapping. Every line of such a tree is
legible: it can be told by its text what kind of line it is.
-/

namespace LayeredConfig

open Text Inline

/-- A comment behind a value starts with a number sign. -/
structure IsRemark (text : List Char) : Prop where
  clean : Clean text
  marked : ∃ rest, text = '#' :: rest

structure Comments.Legible (c : Comments) : Prop where
  head : ∀ text ∈ c.head, IsCommentLine text.toList
  line : ∀ text ∈ c.line, IsRemark text.toList
  foot : ∀ text ∈ c.foot, IsCommentLine text.toList

/-- The comments of a node inside a file, which has nothing at its foot. -/
structure Comments.Inner (c : Comments) : Prop extends c.Legible where
  footless : c.foot = []

theorem Comments.inner_mk {head : List String} {line : Option String}
    (hhead : ∀ text ∈ head, IsCommentLine text.toList)
    (hline : ∀ text ∈ line, IsRemark text.toList) : Comments.Inner ⟨head, line, []⟩ :=
  ⟨⟨hhead, hline, List.forall_mem_nil _⟩, rfl⟩

theorem Comments.inner_none : Comments.Inner {} :=
  inner_mk (List.forall_mem_nil _) (fun _ hmem ↦ by cases hmem)

namespace Tree

/-- A key is a scalar. -/
inductive IsKey : Tree → Prop
  | scalar {c : Comments} {text : String} {style : ScalarStyle} : c.Inner →
      IsKey (.scalar c text style)

inductive Writable : Tree → Prop
  | scalar {c : Comments} {text : String} {style : ScalarStyle} : c.Inner →
      Writable (.scalar c text style)
  | mapping {c : Comments} {entries : List (Tree × Tree)} : c.Inner →
      (∀ entry ∈ entries, IsKey entry.1) → (∀ entry ∈ entries, Writable entry.2) →
      Writable (.mapping c entries)
  | sequence {c : Comments} {items : List Tree} : c.Inner → (∀ item ∈ items, Writable item) →
      Writable (.sequence c items)

theorem Writable.comments {t : Tree} (h : t.Writable) : t.comments.Inner := by
  cases h <;> assumption

/-- A mapping that can be written as a file. Comments may stand at its foot. -/
inductive IsFile : Tree → Prop
  | mapping {c : Comments} {entries : List (Tree × Tree)} : c.Legible →
      (∀ entry ∈ entries, IsKey entry.1) → (∀ entry ∈ entries, Writable entry.2) →
      IsFile (.mapping c entries)

/-! ## Comments behind a value -/

theorem isTrailing_trailing {comment : Option String}
    (h : ∀ text ∈ comment, IsRemark text.toList) : IsTrailing (trailing comment) := by
  cases comment with
  | none => exact .inl rfl
  | some text =>
    obtain ⟨rest, hrest⟩ := (h text rfl).marked
    exact .inr ⟨rest, by rw [trailing, hrest]⟩

theorem clean_trailing {comment : Option String}
    (h : ∀ text ∈ comment, IsRemark text.toList) : Clean (trailing comment) := by
  cases comment with
  | none => exact clean_nil
  | some text =>
    have htext := h text rfl
    obtain ⟨rest, hrest⟩ := htext.marked
    have hne : text.toList ≠ [] := by simp [hrest]
    exact Clean.append (a := [' ']) (b := text.toList) (by decide) htext.clean hne

theorem trailingComment_trailing {comment : Option String}
    (h : ∀ text ∈ comment, IsRemark text.toList) :
    trailingComment (trailing comment) = .ok comment := by
  cases comment with
  | none => rfl
  | some text =>
    obtain ⟨rest, hrest⟩ := (h text rfl).marked
    have hblank : trimStart (' ' :: '#' :: rest) = '#' :: rest := by
      rw [trimStart_cons_of_blank (by decide), trimStart_cons_of_not_blank (by decide)]
    have htext : String.ofList ('#' :: rest) = text := by rw [← hrest, String.ofList_toList]
    rw [trailing, hrest, trailingComment, hblank]
    exact congrArg (fun remark ↦ Except.ok (some remark)) htext

/-! ## The value on the line of its key or dash -/

/-- A value that stands on the line of its key or dash. -/
inductive OnLine : Tree → List Char → Prop
  | scalar {c : Comments} {text : String} {style : ScalarStyle} :
      ¬ (text.toList.isEmpty = true ∧ style = .plain) →
      OnLine (.scalar c text style) (Scalar.render text.toList style)
  | mapping {c : Comments} : OnLine (.mapping c []) ['\x7b', '\x7d']
  | sequence {c : Comments} : OnLine (.sequence c []) ['[', ']']

/-- A value of which nothing stands on the line of its key or dash. -/
inductive OffLine : Tree → Prop
  | scalar {c : Comments} : OffLine (.scalar c "" .plain)
  | mapping {c : Comments} {entry : Tree × Tree} {entries : List (Tree × Tree)} :
      OffLine (.mapping c (entry :: entries))
  | sequence {c : Comments} {item : Tree} {items : List Tree} :
      OffLine (.sequence c (item :: items))

theorem inlineText_cases (t : Tree) :
    (inlineText t = [] ∧ OffLine t) ∨ ∃ body, inlineText t = ' ' :: body ∧ OnLine t body := by
  cases t with
  | scalar c text style =>
    by_cases h : text.toList.isEmpty = true ∧ style = .plain
    · obtain ⟨hempty, rfl⟩ := h
      have htext : text = "" := by
        rw [← String.ofList_toList (s := text), List.isEmpty_iff.1 hempty]
      subst htext
      exact .inl ⟨rfl, .scalar⟩
    · refine .inr ⟨_, ?_, .scalar h⟩
      rw [inlineText, if_neg (by simpa using h)]
  | mapping c entries =>
    cases entries with
    | nil => exact .inr ⟨_, rfl, .mapping⟩
    | cons entry entries => exact .inl ⟨rfl, .mapping⟩
  | sequence c items =>
    cases items with
    | nil => exact .inr ⟨_, rfl, .sequence⟩
    | cons item items => exact .inl ⟨rfl, .sequence⟩

/-- A value on a line can be taken neither for a comment nor for an item. -/
theorem OnLine.exists_cons {t : Tree} {body : List Char} (h : OnLine t body) :
    ∃ first rest, body = first :: rest ∧ isBlank first = false ∧ first ≠ '#' ∧ first ≠ '-' := by
  cases h with
  | scalar =>
    rename_i c text style hfull
    have hwritten := written_render text.toList style
    obtain ⟨first, rest, hcons, hblank, -⟩ := hwritten.exists_cons
    exact ⟨first, rest, hcons, hblank,
      hwritten.head_ne hcons (by decide) (by decide) (by decide),
      hwritten.head_ne hcons (by decide) (by decide) (by decide)⟩
  | mapping => exact ⟨_, _, rfl, by decide, by decide, by decide⟩
  | sequence => exact ⟨_, _, rfl, by decide, by decide, by decide⟩

theorem OnLine.clean {t : Tree} {body : List Char} (h : OnLine t body) : Clean body := by
  cases h with
  | scalar => exact (written_render _ _).clean
  | mapping => exact ⟨by decide, endsClean_singleton (by decide)⟩
  | sequence => exact ⟨by decide, endsClean_singleton (by decide)⟩

/-- A value on a line is no key. -/
theorem OnLine.splitKey_eq_none {t : Tree} {body tail : List Char} (h : OnLine t body)
    (htail : IsTrailing tail) : splitKey (body ++ tail) = .ok none := by
  cases h with
  | scalar => exact (written_render _ _).splitKey_eq_none htail
  | mapping =>
    rw [List.cons_append, splitKey_of_head (by decide) (by decide), ← List.cons_append,
      splitPlainKey_eq_none [] (by decide) (by decide) htail]
    rfl
  | sequence =>
    rw [List.cons_append, splitKey_of_head (by decide) (by decide), ← List.cons_append,
      splitPlainKey_eq_none [] (by decide) (by decide) htail]
    rfl

theorem OnLine.block_eq_nil {t : Tree} {body : List Char} (h : OnLine t body) (indent : Nat) :
    block indent t = [] := by
  cases h <;> rfl

theorem clean_inlineText (t : Tree) : Clean (inlineText t) := by
  rcases inlineText_cases t with ⟨hnone, -⟩ | ⟨body, hbody, hon⟩
  · rw [hnone]
    exact clean_nil
  · obtain ⟨first, rest, hcons, -⟩ := hon.exists_cons
    rw [hbody]
    exact Clean.append (a := [' ']) (by decide) hon.clean (by simp [hcons])

/-! ## The line of a key -/

/-- A key with what stands on its line. -/
def keyBody (key value : Tree) : List Char :=
  keyText key ++ ':' :: inlineText value ++ trailing key.comments.line

theorem keyLine_eq (indent : Nat) (lead : List Char) (key value : Tree) :
    keyLine indent lead key value = .content indent (lead ++ keyBody key value) := by
  rw [keyLine, keyBody]
  simp

theorem IsKey.comments {key : Tree} (h : IsKey key) : key.comments.Inner := by
  cases h
  assumption

theorem endsKey_inlineText (value : Tree) {comment : Option String}
    (h : ∀ text ∈ comment, IsRemark text.toList) :
    endsKey (inlineText value ++ trailing comment) = true := by
  rcases inlineText_cases value with ⟨hnone, -⟩ | ⟨body, hbody, -⟩
  · rw [hnone, List.nil_append]
    rcases isTrailing_trailing h with hnil | ⟨rest, hrest⟩
    · rw [hnil]
      rfl
    · rw [hrest]
      rfl
  · rw [hbody]
    rfl

theorem splitKey_keyBody {c : Comments} (text : String) (style : ScalarStyle) (value : Tree)
    (h : c.Inner) :
    splitKey (keyBody (.scalar c text style) value) =
      .ok (some ⟨text.toList, writtenStyle text.toList style, inlineText value ++ trailing c.line⟩) := by
  have hsplit := (written_render text.toList style).splitKey_append
    (endsKey_inlineText value h.line)
  rw [keyBody, List.append_assoc]
  exact hsplit

/-- The line of a key can be taken neither for a comment nor for an item or a pair of braces. -/
theorem IsKey.exists_cons {key : Tree} (h : IsKey key) (value : Tree) :
    ∃ first rest, keyBody key value = first :: rest ∧ isBlank first = false ∧ first ≠ '#' ∧
      first ≠ '-' ∧ first ≠ '\x7b' := by
  cases h with
  | scalar =>
    rename_i c text style hc
    have hwritten := written_render text.toList style
    obtain ⟨first, rest, hcons, hblank, -⟩ := hwritten.exists_cons
    refine ⟨first, rest ++ ':' :: inlineText value ++ trailing c.line, ?_, hblank, ?_, ?_, ?_⟩
    · rw [keyBody, keyText, hcons]
      rfl
    · exact hwritten.head_ne hcons (by decide) (by decide) (by decide)
    · exact hwritten.head_ne hcons (by decide) (by decide) (by decide)
    · exact hwritten.head_ne hcons (by decide) (by decide) (by decide)

theorem IsKey.clean {key : Tree} (h : IsKey key) (value : Tree) : Clean (keyBody key value) := by
  cases h with
  | scalar =>
    rename_i c text style hc
    have hcolon : Clean (':' :: inlineText value) :=
      Clean.append_clean (a := [':']) ⟨by decide, endsClean_singleton (by decide)⟩
        (clean_inlineText value)
    exact ((written_render text.toList style).clean.append_clean hcolon).append_clean
      (clean_trailing hc.line)

theorem legible_keyLine {key : Tree} (h : IsKey key) (value : Tree) (indent : Nat)
    {lead : List Char} (hlead : lead = [] ∨ lead = ['-', ' ']) :
    (keyLine indent lead key value).Legible := by
  have hcolon : ':' ∈ keyBody key value := by simp [keyBody]
  obtain ⟨first, rest, hcons, hblank, hmark, -, -⟩ := h.exists_cons value
  have hclean := h.clean value
  rw [keyLine_eq]
  rcases hlead with rfl | rfl
  · rw [hcons] at hcolon hclean
    rw [List.nil_append, hcons]
    refine .content hclean hblank hmark fun _ ↦ ⟨?_, ?_⟩
    · rintro hmarker
      rw [hmarker] at hcolon
      exact absurd hcolon (by decide)
    · rintro hmarker
      rw [hmarker] at hcolon
      exact absurd hcolon (by decide)
  · have hline : Clean (['-', ' '] ++ keyBody key value) :=
      Clean.append (by decide) hclean (by simp [hcons])
    refine .content hline (by decide) (by decide) fun _ ↦ ⟨?_, ?_⟩
    · rintro hmarker
      simp at hmarker
    · rintro hmarker
      simp at hmarker

/-! ## All lines of a tree -/

theorem legible_commentLines (indent : Nat) {comments : List String}
    (h : ∀ text ∈ comments, IsCommentLine text.toList) :
    ∀ line ∈ commentLines indent comments, line.Legible := by
  intro line hline
  obtain ⟨text, htext, rfl⟩ := List.mem_map.1 hline
  exact .comment (h text htext)

/-- An item whose first key does not stand on the line of its dash. -/
inductive IsOwnItem : Tree → Prop
  | scalar {c : Comments} {text : String} {style : ScalarStyle} : IsOwnItem (.scalar c text style)
  | mapping {c : Comments} : IsOwnItem (.mapping c [])
  | sequence {c : Comments} {items : List Tree} : IsOwnItem (.sequence c items)

/-- The line of an item that stands behind its dash. -/
def itemBody (item : Tree) : List Char :=
  '-' :: inlineText item ++ trailing item.comments.line

theorem itemLines_own (indent : Nat) {item : Tree} (h : IsOwnItem item) (rest : List Tree) :
    itemLines indent (item :: rest) =
      commentLines indent item.comments.head ++ .content indent (itemBody item) ::
        block (indent + indentStep) item ++ itemLines indent rest := by
  cases h <;> rfl

theorem itemLines_mapping (indent : Nat) (c : Comments) (key value : Tree)
    (entries : List (Tree × Tree)) (rest : List Tree) :
    itemLines indent (.mapping c ((key, value) :: entries) :: rest) =
      commentLines indent (c.head ++ key.comments.head) ++
        keyLine indent ['-', ' '] key value :: block (indent + 2 + indentStep) value ++
        entryLines (indent + 2) entries ++ itemLines indent rest := by
  rw [itemLines, commentLines, commentLines, commentLines, List.map_append]

theorem legible_itemBody {item : Tree} (h : item.comments.Inner) {indent : Nat}
    (hindent : 0 < indent) : (Line.content indent (itemBody item)).Legible := by
  have hdash : Clean ('-' :: inlineText item) :=
    Clean.append_clean (a := ['-']) ⟨by decide, endsClean_singleton (by decide)⟩
      (clean_inlineText item)
  refine .content (hdash.append_clean (clean_trailing h.line)) (by decide) (by decide) ?_
  intro hzero
  omega

theorem legible_ownItem {item : Tree} (hown : IsOwnItem item) {rest : List Tree} {indent : Nat}
    (hitem : item.comments.Inner) (hindent : 0 < indent)
    (hblock : ∀ line ∈ block (indent + indentStep) item, line.Legible)
    (hrest : ∀ line ∈ itemLines indent rest, line.Legible) :
    ∀ line ∈ itemLines indent (item :: rest), line.Legible := by
  rw [itemLines_own indent hown, List.forall_mem_append, List.forall_mem_append,
    List.forall_mem_cons]
  exact ⟨⟨legible_commentLines indent hitem.head, legible_itemBody hitem hindent, hblock⟩, hrest⟩

theorem block_mapping {c : Comments} (h : c.foot = []) (indent : Nat)
    (entries : List (Tree × Tree)) : block indent (.mapping c entries) = entryLines indent entries := by
  cases entries with
  | nil => rfl
  | cons entry entries => simp [block, h, commentLines]

mutual

theorem legible_block : ∀ (t : Tree) (indent : Nat), t.Writable → 0 < indent →
    ∀ line ∈ block indent t, line.Legible
  | .scalar .., _, _, _ => by simp [block]
  | .mapping c entries, indent, h, hindent => by
    cases h with
    | mapping hc hkeys hvalues =>
      rw [block_mapping hc.footless]
      exact legible_entryLines entries indent hkeys hvalues
  | .sequence _ items, indent, h, hindent => by
    cases h with
    | sequence hc hitems => exact legible_itemLines items indent hitems hindent

theorem legible_entryLines : ∀ (entries : List (Tree × Tree)) (indent : Nat),
    (∀ entry ∈ entries, IsKey entry.1) → (∀ entry ∈ entries, entry.2.Writable) →
    ∀ line ∈ entryLines indent entries, line.Legible
  | [], _, _, _ => by simp [entryLines]
  | (key, value) :: rest, indent, hkeys, hvalues => by
    have hkey : IsKey key := hkeys _ List.mem_cons_self
    have hvalue : value.Writable := hvalues _ List.mem_cons_self
    have hrest := legible_entryLines rest indent
      (fun entry hmem ↦ hkeys entry (List.mem_cons_of_mem _ hmem))
      (fun entry hmem ↦ hvalues entry (List.mem_cons_of_mem _ hmem))
    have hblock := legible_block value (indent + indentStep) hvalue (by simp [indentStep])
    rw [entryLines, List.forall_mem_append, List.forall_mem_append, List.forall_mem_cons]
    exact ⟨⟨legible_commentLines indent hkey.comments.head,
      legible_keyLine hkey value indent (.inl rfl), hblock⟩, hrest⟩

theorem legible_itemLines : ∀ (items : List Tree) (indent : Nat),
    (∀ item ∈ items, item.Writable) → 0 < indent → ∀ line ∈ itemLines indent items, line.Legible
  | [], _, _, _ => by simp [itemLines]
  | .mapping c ((key, value) :: entries) :: rest, indent, hitems, hindent => by
    cases hitems _ List.mem_cons_self with
    | mapping hc hkeys hvalues =>
      have hkey : IsKey key := hkeys _ List.mem_cons_self
      have hhead : ∀ text ∈ c.head ++ key.comments.head, IsCommentLine text.toList := by
        rw [List.forall_mem_append]
        exact ⟨hc.head, hkey.comments.head⟩
      have hblock := legible_block value (indent + 2 + indentStep)
        (hvalues _ List.mem_cons_self) (by omega)
      have hentries := legible_entryLines entries (indent + 2)
        (fun entry hmem ↦ hkeys entry (List.mem_cons_of_mem _ hmem))
        (fun entry hmem ↦ hvalues entry (List.mem_cons_of_mem _ hmem))
      have hrest := legible_itemLines rest indent
        (fun item hmem ↦ hitems item (List.mem_cons_of_mem _ hmem)) hindent
      rw [itemLines_mapping, List.forall_mem_append, List.forall_mem_append,
        List.forall_mem_append, List.forall_mem_cons]
      exact ⟨⟨⟨legible_commentLines indent hhead, legible_keyLine hkey value indent (.inr rfl),
        hblock⟩, hentries⟩, hrest⟩
  | .scalar c text style :: rest, indent, hitems, hindent => by
    have hitem := hitems _ List.mem_cons_self
    exact legible_ownItem .scalar hitem.comments hindent (legible_block _ _ hitem (by omega))
      (legible_itemLines rest indent (fun item hmem ↦ hitems item (List.mem_cons_of_mem _ hmem)) hindent)
  | .mapping c [] :: rest, indent, hitems, hindent => by
    have hitem := hitems _ List.mem_cons_self
    exact legible_ownItem .mapping hitem.comments hindent (legible_block _ _ hitem (by omega))
      (legible_itemLines rest indent (fun item hmem ↦ hitems item (List.mem_cons_of_mem _ hmem)) hindent)
  | .sequence c items :: rest, indent, hitems, hindent => by
    have hitem := hitems _ List.mem_cons_self
    exact legible_ownItem .sequence hitem.comments hindent (legible_block _ _ hitem (by omega))
      (legible_itemLines rest indent (fun item hmem ↦ hitems item (List.mem_cons_of_mem _ hmem)) hindent)

end

theorem legible_closedLine {text : List Char} {c : Comments} (htext : Clean text) (hc : c.Legible)
    (hbody : ∃ first rest, text = first :: rest ∧ isBlank first = false ∧ first ≠ '#' ∧
      first ≠ '-' ∧ first ≠ '.') : ∀ line ∈ closedLine text c, line.Legible := by
  obtain ⟨first, rest, rfl, hblank, hmark, hdash, hdot⟩ := hbody
  rw [closedLine, List.forall_mem_cons]
  refine ⟨?_, legible_commentLines 0 hc.foot⟩
  rw [List.cons_append]
  refine .content (htext.append_clean (clean_trailing hc.line)) hblank hmark fun _ ↦ ⟨?_, ?_⟩
  · intro hmarker
    exact hdash (List.cons.inj hmarker).1
  · intro hmarker
    exact hdot (List.cons.inj hmarker).1

theorem filter_isExcluded_nil (entries : List (Tree × Tree)) :
    entries.filter (fun entry ↦ !isExcluded [] entry.1) = entries := by
  apply List.filter_eq_self.2
  intro entry _
  cases entry.1 <;> rfl

theorem fileLines_empty (c : Comments) :
    fileLines [] (.mapping c []) = commentLines 0 c.head ++ closedLine ['\x7b', '\x7d'] c := rfl

theorem fileLines_entries (c : Comments) (entry : Tree × Tree) (entries : List (Tree × Tree)) :
    fileLines [] (.mapping c (entry :: entries)) =
      commentLines 0 c.head ++ (entryLines 0 (entry :: entries) ++ commentLines 0 c.foot) := by
  unfold fileLines
  simp only [filter_isExcluded_nil]
  rfl

/-- What is excluded might as well not be there. -/
theorem fileLines_mapping (exclude : List String) (c : Comments) (entries : List (Tree × Tree)) :
    fileLines exclude (.mapping c entries) =
      fileLines [] (.mapping c (entries.filter fun entry ↦ !isExcluded exclude entry.1)) := by
  unfold fileLines
  simp only [filter_isExcluded_nil]
  rfl

theorem IsFile.legible {t : Tree} (h : t.IsFile) : ∀ line ∈ fileLines [] t, line.Legible := by
  cases h with
  | mapping hc hkeys hvalues =>
    rename_i c entries
    cases entries with
    | nil =>
      rw [fileLines_empty, List.forall_mem_append]
      exact ⟨legible_commentLines 0 hc.head,
        legible_closedLine ⟨by decide, endsClean_singleton (by decide)⟩ hc
          ⟨_, _, rfl, by decide, by decide, by decide, by decide⟩⟩
    | cons entry entries =>
      rw [fileLines_entries, List.forall_mem_append, List.forall_mem_append]
      exact ⟨legible_commentLines 0 hc.head, legible_entryLines _ 0 hkeys hvalues,
        legible_commentLines 0 hc.foot⟩

end Tree

end LayeredConfig
