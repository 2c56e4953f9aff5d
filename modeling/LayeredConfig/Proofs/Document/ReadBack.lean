import LayeredConfig.Proofs.Document.Reader
import LayeredConfig.Proofs.Document.Rereading

/-!
# Written trees are read back

The lines of a tree are read back part by part, in front of any lines that cannot belong to the
part: lines further left, or behind a value also another key of the same mapping. The whole file
is read back as the tree that it holds, up to what writing does not keep.
-/

namespace LayeredConfig.Reader

open Text Inline LayeredConfig.Tree

/-- The lines behind a value, which go on with another key or further left. -/
def Ends (indent : Nat) (src : Source) : Prop :=
  ∀ step ∈ next? src, step.indent < indent ∨ step.indent = indent ∧ isItem step.text = false

theorem Closes.ends {indent : Nat} {src : Source} (h : Closes indent src) : Ends indent src :=
  fun step hstep ↦ .inl (h step hstep)

theorem Ends.closes {indent : Nat} {src : Source} (h : Ends indent src) :
    Closes (indent + 1) src := by
  intro step hstep
  rcases h step hstep with hlt | ⟨heq, -⟩ <;> omega

/-! ## The first line -/

theorem next?_content (number indent : Nat) (text : List Char) (lines : List Line) (tail : Source) :
    next? (numbered number (.content indent text :: lines) ++ tail) =
      some ⟨[], number, indent, text, numbered (number + 1) lines ++ tail⟩ := rfl

theorem next?_comments (number indent : Nat) (comments : List String) (src : Source) :
    next? (numbered number (commentLines indent comments) ++ src) =
      (next? src).map fun step ↦ { step with comments := comments ++ step.comments } := by
  induction comments generalizing number with
  | nil =>
    cases h : next? src <;> simp [commentLines, numbered, h]
  | cons text comments ih =>
    have hnext : ∀ indent', next? ((number, .comment indent' text.toList) ::
        (numbered (number + 1) (commentLines indent comments) ++ src)) =
        (next? src).map fun step ↦ { step with comments := text :: comments ++ step.comments } := by
      intro indent'
      rw [next?, ih, Option.map_map, String.ofList_toList]
      rfl
    have hstored : ∃ indent', (Line.comment indent text.toList).stored =
        .comment indent' text.toList := by
      cases htext : text.toList with
      | nil => exact ⟨0, rfl⟩
      | cons first rest => exact ⟨indent, rfl⟩
    obtain ⟨indent', hstored⟩ := hstored
    change next? ((number, (Line.comment indent text.toList).stored) :: _) = _
    rw [hstored]
    exact hnext indent'

/-- Behind its comments, a block starts with its first line of content. -/
theorem next?_head (number indent : Nat) (comments : List String) (text : List Char)
    (lines : List Line) (tail : Source) :
    next? (numbered number (commentLines indent comments ++ .content indent text :: lines) ++ tail) =
      some ⟨comments, number + comments.length, indent, text,
        numbered (number + comments.length + 1) lines ++ tail⟩ := by
  rw [numbered_append, List.append_assoc, next?_comments, next?_content, commentLines,
    List.length_map]
  simp

theorem isItem_keyBody {key : Tree} (h : IsKey key) (value : Tree) :
    isItem (keyBody key value) = false := by
  obtain ⟨first, rest, hcons, -, -, hdash, -⟩ := h.exists_cons value
  rw [hcons]
  exact isItem_of_head_ne rest hdash

theorem next?_entryLines (number indent : Nat) {key : Tree} (value : Tree)
    (rest : List (Tree × Tree)) (tail : Source) (hkey : IsKey key) :
    ∃ step, next? (numbered number (entryLines indent ((key, value) :: rest)) ++ tail) = some step ∧
      step.indent = indent ∧ step.text = keyBody key value ∧ isItem step.text = false := by
  rw [entryLines, List.append_assoc, List.cons_append, keyLine_eq, next?_head]
  exact ⟨_, rfl, rfl, rfl, isItem_keyBody hkey value⟩

theorem ends_entryLines (number : Nat) {indent : Nat} {entries : List (Tree × Tree)} {tail : Source}
    (hkeys : ∀ entry ∈ entries, IsKey entry.1) (htail : Closes indent tail) :
    Ends indent (numbered number (entryLines indent entries) ++ tail) := by
  rcases entries with _ | ⟨⟨key, value⟩, rest⟩
  · exact htail.ends
  · obtain ⟨step, hnext, hindent, -, hitem⟩ := next?_entryLines number indent value rest tail
      (hkeys _ List.mem_cons_self)
    intro step' hstep
    obtain rfl := Option.some.inj (hnext.symm.trans hstep)
    exact .inr ⟨hindent, hitem⟩

/-! ## Values -/

theorem placement_trailing {comment : Option String}
    (h : ∀ text ∈ comment, IsRemark text.toList) :
    placement (trimStart (trailing comment)) = .below comment := by
  cases comment with
  | none => rfl
  | some text =>
    obtain ⟨rest, hrest⟩ := (h text rfl).marked
    have htext : String.ofList ('#' :: rest) = text := by rw [← hrest, String.ofList_toList]
    rw [trailing, hrest, trimStart_cons_of_blank (by decide),
      trimStart_cons_of_not_blank (by decide)]
    exact congrArg (fun remark ↦ Placement.below (some remark)) htext

theorem placement_of_head_ne {first : Char} (rest : List Char) (h : first ≠ '#') :
    placement (first :: rest) = .inline := by
  unfold placement
  split
  · rename_i hline
    cases hline
  · rename_i hline
    exact absurd (List.cons.inj hline).1 h
  · rfl

/-- A value on a line is read back as it was written, with the comment behind it. -/
theorem inlineValue_onLine {t : Tree} {body : List Char} {comment : Option String}
    (h : OnLine t body) (hcomment : ∀ text ∈ comment, IsRemark text.toList) :
    inlineValue (body ++ trailing comment) = .ok (reread t, comment) := by
  have htail := trailingComment_trailing hcomment
  cases h with
  | mapping =>
    change (do return (Tree.mapping {} [], ← trailingComment (trailing comment))) = _
    rw [htail]
    rfl
  | sequence =>
    change (do return (Tree.sequence {} [], ← trailingComment (trailing comment))) = _
    rw [htail]
    rfl
  | scalar hfull =>
    rename_i c text style
    have hwritten := written_render text.toList style
    have hread := hwritten.scalar_append (isTrailing_trailing hcomment)
    obtain ⟨first, rest, hcons, -⟩ := hwritten.exists_cons
    have hstyle : Scalar.styleFor text.toList style = writtenStyle text.toList style := by
      rw [styleFor_eq, if_neg]
      simpa using hfull
    rw [hcons] at hread ⊢
    rw [List.cons_append] at hread ⊢
    unfold inlineValue
    split
    case h_10 =>
      rw [hread, ok_bind, htail, ok_bind, reread, hstyle, String.ofList_toList]
      rfl
    all_goals
      rename_i hline
      exact absurd (List.cons.inj hline).1
        (hwritten.head_ne hcons (by decide) (by decide) (by decide))

/-! ## Items -/

theorem itemBody?_offLine {item : Tree} (h : inlineText item = [])
    (hline : ∀ text ∈ item.comments.line, IsRemark text.toList) :
    itemBody? (itemBody item) = some (trimStart (trailing item.comments.line)) := by
  rw [itemBody, h]
  rcases isTrailing_trailing hline with hnone | ⟨rest, hrest⟩
  · rw [hnone]
    rfl
  · rw [hrest, trimStart_cons_of_blank (by decide), trimStart_cons_of_not_blank (by decide)]
    exact itemBody?_dash rest (by decide)

theorem itemBody?_onLine {item : Tree} {body : List Char} (h : inlineText item = ' ' :: body)
    (hon : OnLine item body) :
    itemBody? (itemBody item) = some (body ++ trailing item.comments.line) := by
  obtain ⟨first, rest, rfl, hblank, -, -⟩ := hon.exists_cons
  rw [itemBody, h]
  exact itemBody?_dash _ hblank

theorem itemBody?_keyBody {key : Tree} (h : IsKey key) (value : Tree) :
    itemBody? (['-', ' '] ++ keyBody key value) = some (keyBody key value) := by
  obtain ⟨first, rest, hcons, hblank, -⟩ := h.exists_cons value
  rw [hcons]
  exact itemBody?_dash rest hblank

theorem isItem_itemBody {item : Tree} (h : item.comments.Inner) :
    isItem (itemBody item) = true := by
  unfold isItem
  rcases inlineText_cases item with ⟨hnone, -⟩ | ⟨body, hbody, hon⟩
  · rw [itemBody?_offLine hnone h.line]
    rfl
  · rw [itemBody?_onLine hbody hon]
    rfl

theorem next?_ownItem (number indent : Nat) {item : Tree} (hown : IsOwnItem item)
    (rest : List Tree) (tail : Source) :
    next? (numbered number (itemLines indent (item :: rest)) ++ tail) =
      some ⟨item.comments.head, number + item.comments.head.length, indent, itemBody item,
        numbered (number + item.comments.head.length + 1)
          (block (indent + indentStep) item ++ itemLines indent rest) ++ tail⟩ := by
  rw [itemLines_own indent hown, List.append_assoc, List.cons_append, next?_head]

theorem next?_keyItem (number indent : Nat) (c : Comments) (key value : Tree)
    (entries : List (Tree × Tree)) (rest : List Tree) (tail : Source) :
    ∃ number' behind, next? (numbered number
        (itemLines indent (.mapping c ((key, value) :: entries) :: rest)) ++ tail) =
      some ⟨c.head ++ key.comments.head, number', indent, ['-', ' '] ++ keyBody key value,
        numbered (number' + 1)
          (block (indent + 2 + indentStep) value ++ entryLines (indent + 2) entries) ++
            (numbered behind (itemLines indent rest) ++ tail)⟩ := by
  rw [itemLines_mapping, keyLine_eq, List.append_assoc, List.append_assoc, List.cons_append,
    next?_head, ← List.append_assoc, numbered_append, List.append_assoc]
  exact ⟨_, _, rfl⟩

theorem next?_itemLines (number indent : Nat) {item : Tree} (rest : List Tree) (tail : Source)
    (h : item.Writable) :
    ∃ step, next? (numbered number (itemLines indent (item :: rest)) ++ tail) = some step ∧
      step.indent = indent ∧ isItem step.text = true := by
  have hown (hown : IsOwnItem item) :
      ∃ step, next? (numbered number (itemLines indent (item :: rest)) ++ tail) = some step ∧
        step.indent = indent ∧ isItem step.text = true :=
    ⟨_, next?_ownItem number indent hown rest tail, rfl, isItem_itemBody h.comments⟩
  cases h with
  | scalar => exact hown .scalar
  | sequence => exact hown .sequence
  | mapping hc hkeys hvalues =>
    rename_i c entries
    rcases entries with _ | ⟨⟨key, value⟩, entries⟩
    · exact hown .mapping
    · obtain ⟨_, _, hnext⟩ := next?_keyItem number indent c key value entries rest tail
      refine ⟨_, hnext, rfl, ?_⟩
      unfold isItem
      rw [itemBody?_keyBody (hkeys _ List.mem_cons_self)]
      rfl

theorem closes_itemLines (number : Nat) {indent : Nat} {items : List Tree} {tail : Source}
    (hitems : ∀ item ∈ items, item.Writable) (htail : Closes indent tail) :
    Closes (indent + 1) (numbered number (itemLines indent items) ++ tail) := by
  rcases items with _ | ⟨item, rest⟩
  · exact htail.mono (Nat.le_succ indent)
  · obtain ⟨step, hnext, hindent, -⟩ := next?_itemLines number indent rest tail
      (hitems _ List.mem_cons_self)
    intro step' hstep
    obtain rfl := Option.some.inj (hnext.symm.trans hstep)
    omega

/-! ## Reading back -/

theorem reads_onLine {indent number : Nat} {v : Tree} {body : List Char}
    {comment : Option String} (hon : OnLine v body)
    (hcomment : ∀ text ∈ comment, IsRemark text.toList) (src : Source) :
    Reads (value indent (trimStart (' ' :: body ++ trailing comment)) number src)
      (reread v, comment) src := by
  obtain ⟨first, rest, hcons, hblank, hmark, -⟩ := hon.exists_cons
  have htext : trimStart (' ' :: body ++ trailing comment) = body ++ trailing comment := by
    rw [List.cons_append, trimStart_cons_of_blank (by decide), hcons, List.cons_append,
      trimStart_cons_of_not_blank hblank]
  rw [htext]
  apply value_inline
  · rw [hcons]
    exact placement_of_head_ne _ hmark
  · exact inlineValue_onLine hon hcomment

/-- The lines of a block stand further right than its key. -/
theorem indent_of_block {indent number : Nat} {v : Tree} {src : Source} (hv : v.Writable)
    (hends : Ends indent src) :
    ∀ step ∈ next? (numbered number (block (indent + indentStep) v) ++ src),
      step.indent = indent → isItem step.text = false := by
  have hsrc : ∀ step ∈ next? src, step.indent = indent → isItem step.text = false := by
    intro step hstep hindent
    rcases hends step hstep with hlt | ⟨-, hitem⟩
    · omega
    · exact hitem
  have hfirst {lines : List Line} (h : ∃ step, next? (numbered number lines ++ src) = some step ∧
      step.indent = indent + indentStep) :
      ∀ step ∈ next? (numbered number lines ++ src), step.indent = indent →
        isItem step.text = false := by
    obtain ⟨step, hnext, hindent⟩ := h
    intro step' hstep hindent'
    obtain rfl := Option.some.inj (hnext.symm.trans hstep)
    rw [hindent, indentStep] at hindent'
    omega
  cases hv with
  | scalar => exact hsrc
  | mapping hc hkeys hvalues =>
    rename_i c entries
    rcases entries with _ | ⟨⟨key, value⟩, rest⟩
    · exact hsrc
    · apply hfirst
      obtain ⟨step, hnext, hindent, -⟩ := next?_entryLines number (indent + indentStep)
        value rest src (hkeys _ List.mem_cons_self)
      rw [block_mapping hc.footless]
      exact ⟨step, hnext, hindent⟩
  | sequence hc hitems =>
    rename_i c items
    rcases items with _ | ⟨item, rest⟩
    · exact hsrc
    · apply hfirst
      obtain ⟨step, hnext, hindent, -⟩ := next?_itemLines number (indent + indentStep) rest src
        (hitems _ List.mem_cons_self)
      exact ⟨step, hnext, hindent⟩

/-- A value is read back before the lines behind it once its block is. -/
theorem reads_value {indent number start : Nat} {v : Tree} {comment : Option String} {src : Source}
    (hv : v.Writable) (hcomment : ∀ text ∈ comment, IsRemark text.toList)
    (hends : Ends indent src)
    (hblock : OffLine v → Reads (nested indent
      (numbered start (block (indent + indentStep) v) ++ src)) (reread v) src) :
    Reads (value indent (trimStart (inlineText v ++ trailing comment)) number
      (numbered start (block (indent + indentStep) v) ++ src)) (reread v, comment) src := by
  rcases inlineText_cases v with ⟨hnone, hoff⟩ | ⟨body, hbody, hon⟩
  · rw [hnone, List.nil_append]
    exact value_nested (placement_trailing hcomment) (indent_of_block hv hends) (hblock hoff)
  · rw [hbody, hon.block_eq_nil]
    exact reads_onLine hon hcomment src

/-- An entry is read back before the lines behind it once its value is. -/
theorem reads_entry (indent number : Nat) {key v : Tree} (hkey : IsKey key)
    {lines : List Line} {tail rest : Source} {more : List (Tree × Tree)}
    (hvalue : ∀ number start src, Ends indent src →
      Reads (value indent (trimStart (inlineText v ++ trailing key.comments.line)) number
        (numbered start (block (indent + indentStep) v) ++ src)) (reread v, key.comments.line) src)
    (hends : ∀ start, Ends indent (numbered start lines ++ tail))
    (hmore : ∀ start, Reads (entries indent (numbered start lines ++ tail)) more rest) :
    Reads (entries indent (numbered number (commentLines indent key.comments.head ++
      keyLine indent [] key v :: (block (indent + indentStep) v ++ lines)) ++ tail))
      ((rereadKey key, reread v) :: more) rest := by
  have hnext := next?_head number indent key.comments.head (keyBody key v)
    (block (indent + indentStep) v ++ lines) tail
  rw [keyLine_eq, List.nil_append]
  cases hkey with
  | scalar hc =>
    rename_i c text style
    have hbelow (number start : Nat) : ∃ behind,
        Reads (value indent (trimStart (inlineText v ++ trailing c.line)) number
          (numbered start (block (indent + indentStep) v ++ lines) ++ tail)) (reread v, c.line)
          (numbered behind lines ++ tail) := by
      rw [numbered_append, List.append_assoc]
      exact ⟨_, hvalue number start _ (hends _)⟩
    obtain ⟨behind, hbelow⟩ := hbelow (number + c.head.length) (number + c.head.length + 1)
    have hread := entries_cons hnext rfl (isItem_keyBody (.scalar hc) v)
      (splitKey_keyBody text style v hc) hbelow (hmore behind)
    rw [String.ofList_toList] at hread
    exact hread

/-- An item is read back before the lines behind it once its block is. -/
theorem reads_ownItem {indent : Nat} {item : Tree} (number : Nat) (hown : IsOwnItem item)
    (hitem : item.Writable) {rest : List Tree} {tail : Source}
    (hblock : ∀ start src, OffLine item → Closes (indent + 1) src →
      Reads (nested indent (numbered start (block (indent + indentStep) item) ++ src))
        (reread item) src)
    (hcloses : ∀ start, Closes (indent + 1) (numbered start (itemLines indent rest) ++ tail))
    (hmore : ∀ start, Reads (items indent (numbered start (itemLines indent rest) ++ tail))
      (rereadItems rest) tail) :
    Reads (items indent (numbered number (itemLines indent (item :: rest)) ++ tail))
      (rereadItems (item :: rest)) tail := by
  have hnext := next?_ownItem number indent hown rest tail
  have hcomments : (((reread item).withLine item.comments.line).withHead item.comments.head) =
      (reread item).withComments ⟨item.comments.head, item.comments.line, []⟩ := by
    cases item <;> rfl
  rw [numbered_append, List.append_assoc] at hnext
  rw [rereadItems_own hown, ← hcomments]
  rcases inlineText_cases item with ⟨hnone, hoff⟩ | ⟨body, hbody, hon⟩
  · exact items_cons hnext rfl (itemBody?_offLine hnone hitem.comments.line)
      (item_below (placement_trailing hitem.comments.line) (hblock _ _ hoff (hcloses _))) (hmore _)
  · have hitemBody := itemBody?_onLine hbody hon
    obtain ⟨first, more, hcons, -, hmark, hdash⟩ := hon.exists_cons
    have hplace : placement (body ++ trailing item.comments.line) = .inline := by
      rw [hcons]
      exact placement_of_head_ne _ hmark
    have hdash' : isItem (body ++ trailing item.comments.line) = false := by
      rw [hcons]
      exact isItem_of_head_ne _ hdash
    rw [hon.block_eq_nil] at hnext
    exact items_cons hnext rfl hitemBody
      (item_inline hplace hdash' (hon.splitKey_eq_none (isTrailing_trailing hitem.comments.line))
        (inlineValue_onLine hon hitem.comments.line)) (hmore _)

/-- The entries of an item line up behind its dash. -/
theorem reads_keyItem {indent : Nat} {c : Comments} {key v : Tree} {entries : List (Tree × Tree)}
    (number : Nat) (hkey : IsKey key) {rest : List Tree} {tail : Source}
    (hvalue : ∀ number start src, Ends (indent + 2) src →
      Reads (value (indent + 2) (trimStart (inlineText v ++ trailing key.comments.line)) number
        (numbered start (block (indent + 2 + indentStep) v) ++ src))
        (reread v, key.comments.line) src)
    (hkeys : ∀ entry ∈ entries, IsKey entry.1)
    (hentries : ∀ start src, Closes (indent + 2) src →
      Reads (Reader.entries (indent + 2) (numbered start (entryLines (indent + 2) entries) ++ src))
        (rereadEntries entries) src)
    (hcloses : ∀ start, Closes (indent + 1) (numbered start (itemLines indent rest) ++ tail))
    (hmore : ∀ start, Reads (items indent (numbered start (itemLines indent rest) ++ tail))
      (rereadItems rest) tail) :
    Reads (items indent
      (numbered number (itemLines indent (.mapping c ((key, v) :: entries) :: rest)) ++ tail))
      (rereadItems (.mapping c ((key, v) :: entries) :: rest)) tail := by
  obtain ⟨number', behind, hnext⟩ := next?_keyItem number indent c key v entries rest tail
  have hbody := itemBody?_keyBody hkey v
  have hcolumn : indent + ((['-', ' '] ++ keyBody key v).length - (keyBody key v).length) =
      indent + 2 := by
    rw [List.length_append, Nat.add_sub_cancel]
    rfl
  have hbare : IsKey (key.withHead []) := hkey.withHead (List.forall_mem_nil _)
  have hcomments : (key.withHead []).comments = ⟨[], key.comments.line, key.comments.foot⟩ :=
    comments_withComments _ _
  obtain ⟨read, hread⟩ : ∃ read, splitKey (keyBody key v) = .ok (some read) := by
    cases hkey with
    | scalar hc => exact ⟨_, splitKey_keyBody _ _ v hc⟩
  obtain ⟨first, more, hcons, -, hmark, -⟩ := hkey.exists_cons v
  have hplace : placement (keyBody key v) = .inline := by
    rw [hcons]
    exact placement_of_head_ne _ hmark
  have hclosed : Closes (indent + 2) (numbered behind (itemLines indent rest) ++ tail) :=
    (hcloses behind).mono (by omega)
  have hread' := reads_entry (indent + 2) number' hbare
    (by rw [hcomments]; exact hvalue)
    (fun start ↦ ends_entryLines start hkeys hclosed)
    (fun start ↦ hentries start _ hclosed)
  rw [hcomments, keyLine_eq, keyBody_withHead] at hread'
  rw [rereadItems_mapping]
  refine items_cons (t := .mapping {} _) hnext rfl hbody
    (item_key hplace (isItem_keyBody hkey v) hread hcolumn ?_) (hmore behind)
  exact hread'

mutual

theorem reads_nested : ∀ (v : Tree) {indent : Nat} (number : Nat) (tail : Source), v.Writable →
    OffLine v → Closes (indent + 1) tail →
    Reads (nested indent (numbered number (block (indent + indentStep) v) ++ tail)) (reread v) tail
  | .scalar c text style, indent, number, tail, hv, hoff, htail => by
    cases hoff
    exact nested_empty htail
  | .mapping c ((key, v) :: entries), indent, number, tail, hv, hoff, htail => by
    cases hv with
    | mapping hc hkeys hvalues =>
      have htail' : Closes (indent + indentStep) tail := htail.mono (by simp [indentStep])
      have hread := reads_entries ((key, v) :: entries) number tail hkeys hvalues htail'
      obtain ⟨step, hnext, hindent, -, hitem⟩ := next?_entryLines number (indent + indentStep)
        v entries tail (hkeys _ List.mem_cons_self)
      rw [← hindent] at hread
      rw [block_mapping hc.footless, ← hindent, reread]
      exact nested_entries (by rw [hindent]; exact hnext) (by simp [hindent, indentStep]) hitem hread
  | .sequence c (item :: items), indent, number, tail, hv, hoff, htail => by
    cases hv with
    | sequence hc hitems =>
      have htail' : Closes (indent + indentStep) tail := htail.mono (by simp [indentStep])
      have hread := reads_items (item :: items) number tail hitems htail'
      obtain ⟨step, hnext, hindent, hitem⟩ := next?_itemLines number (indent + indentStep) items tail
        (hitems _ List.mem_cons_self)
      rw [← hindent] at hread
      rw [block, ← hindent, reread]
      exact nested_items (by rw [hindent]; exact hnext) (by simp [hindent, indentStep]) hitem hread

theorem reads_entries : ∀ (es : List (Tree × Tree)) {indent : Nat} (number : Nat) (tail : Source),
    (∀ entry ∈ es, IsKey entry.1) → (∀ entry ∈ es, entry.2.Writable) → Closes indent tail →
    Reads (entries indent (numbered number (entryLines indent es) ++ tail)) (rereadEntries es) tail
  | [], indent, number, tail, hkeys, hvalues, htail => entries_nil htail
  | (key, v) :: rest, indent, number, tail, hkeys, hvalues, htail => by
    have hkey : IsKey key := hkeys _ List.mem_cons_self
    have hkeys' : ∀ entry ∈ rest, IsKey entry.1 :=
      fun entry hmem ↦ hkeys entry (List.mem_cons_of_mem _ hmem)
    have hvalues' : ∀ entry ∈ rest, entry.2.Writable :=
      fun entry hmem ↦ hvalues entry (List.mem_cons_of_mem _ hmem)
    rw [entryLines, List.append_assoc, List.cons_append]
    exact reads_entry indent number hkey
      (fun number start src hsrc ↦ reads_value (hvalues _ List.mem_cons_self) hkey.comments.line
        hsrc (fun hoff ↦ reads_nested v start src (hvalues _ List.mem_cons_self) hoff hsrc.closes))
      (fun start ↦ ends_entryLines start hkeys' htail)
      (fun start ↦ reads_entries rest start tail hkeys' hvalues' htail)

theorem reads_items : ∀ (is : List Tree) {indent : Nat} (number : Nat) (tail : Source),
    (∀ item ∈ is, item.Writable) → Closes indent tail →
    Reads (items indent (numbered number (itemLines indent is) ++ tail)) (rereadItems is) tail
  | [], indent, number, tail, hitems, htail => items_nil htail
  | .mapping c ((key, v) :: entries) :: rest, indent, number, tail, hitems, htail => by
    have hitems' : ∀ item ∈ rest, item.Writable :=
      fun item hmem ↦ hitems item (List.mem_cons_of_mem _ hmem)
    cases hitems _ List.mem_cons_self with
    | mapping hc hkeys hvalues =>
      have hkey : IsKey key := hkeys _ List.mem_cons_self
      have hkeys' : ∀ entry ∈ entries, IsKey entry.1 :=
        fun entry hmem ↦ hkeys entry (List.mem_cons_of_mem _ hmem)
      have hvalues' : ∀ entry ∈ entries, entry.2.Writable :=
        fun entry hmem ↦ hvalues entry (List.mem_cons_of_mem _ hmem)
      exact reads_keyItem number hkey
        (fun number start src hsrc ↦ reads_value (hvalues _ List.mem_cons_self)
          hkey.comments.line hsrc
          (fun hoff ↦ reads_nested v start src (hvalues _ List.mem_cons_self) hoff hsrc.closes))
        hkeys' (fun start src hsrc ↦ reads_entries entries start src hkeys' hvalues' hsrc)
        (fun start ↦ closes_itemLines start hitems' htail)
        (fun start ↦ reads_items rest start tail hitems' htail)
  | .scalar c text style :: rest, indent, number, tail, hitems, htail => by
    have hitem := hitems _ List.mem_cons_self
    have hitems' : ∀ item ∈ rest, item.Writable :=
      fun item hmem ↦ hitems item (List.mem_cons_of_mem _ hmem)
    exact reads_ownItem number .scalar hitem
      (fun start src hoff hsrc ↦ reads_nested _ start src hitem hoff hsrc)
      (fun start ↦ closes_itemLines start hitems' htail)
      (fun start ↦ reads_items rest start tail hitems' htail)
  | .mapping c [] :: rest, indent, number, tail, hitems, htail => by
    have hitem := hitems _ List.mem_cons_self
    have hitems' : ∀ item ∈ rest, item.Writable :=
      fun item hmem ↦ hitems item (List.mem_cons_of_mem _ hmem)
    exact reads_ownItem number .mapping hitem
      (fun start src hoff hsrc ↦ reads_nested _ start src hitem hoff hsrc)
      (fun start ↦ closes_itemLines start hitems' htail)
      (fun start ↦ reads_items rest start tail hitems' htail)
  | .sequence c is :: rest, indent, number, tail, hitems, htail => by
    have hitem := hitems _ List.mem_cons_self
    have hitems' : ∀ item ∈ rest, item.Writable :=
      fun item hmem ↦ hitems item (List.mem_cons_of_mem _ hmem)
    exact reads_ownItem number .sequence hitem
      (fun start src hoff hsrc ↦ reads_nested _ start src hitem hoff hsrc)
      (fun start ↦ closes_itemLines start hitems' htail)
      (fun start ↦ reads_items rest start tail hitems' htail)

end

/-! ## Files -/

theorem next?_commentLines (number indent : Nat) (comments : List String) :
    next? (numbered number (commentLines indent comments)) = none := by
  have h := next?_comments number indent comments []
  rwa [List.append_nil] at h

theorem leadingComments_commentLines (number indent : Nat) (comments : List String) :
    leadingComments (numbered number (commentLines indent comments)) = comments := by
  induction comments generalizing number with
  | nil => rfl
  | cons text comments ih =>
    have hstored : ∃ indent', (Line.comment indent text.toList).stored =
        .comment indent' text.toList := by
      cases htext : text.toList with
      | nil => exact ⟨0, rfl⟩
      | cons first rest => exact ⟨indent, rfl⟩
    obtain ⟨indent', hstored⟩ := hstored
    change leadingComments ((number, (Line.comment indent text.toList).stored) :: _) = _
    rw [hstored]
    change String.ofList text.toList ::
      leadingComments (numbered (number + 1) (commentLines indent comments)) = _
    rw [ih, String.ofList_toList]

/-- Comments above the first key are comments of that key. -/
theorem commentLines_entryLines (indent : Nat) (lines : List String) (key value : Tree)
    (rest : List (Tree × Tree)) :
    commentLines indent lines ++ entryLines indent ((key, value) :: rest) =
      entryLines indent ((key.withHead (lines ++ key.comments.head), value) :: rest) := by
  rw [entryLines, entryLines, keyLine_eq, keyLine_eq, keyBody_withHead, withHead,
    comments_withComments]
  simp [commentLines]

theorem root_entries {step : Step} {src : Source} {key value : Tree} (hkey : IsKey key)
    (htext : step.text = keyBody key value) {found : List (Tree × Tree)} {rest : Source}
    (h : Reads (entries step.indent src) found rest) :
    root step src = .ok (.mapping {} found, rest) := by
  obtain ⟨⟨_, _, hle⟩, h, rfl, rfl⟩ := h
  obtain ⟨first, more, hcons, -, -, hdash, hbrace⟩ := hkey.exists_cons value
  unfold root
  rw [htext, hcons, if_neg (by simp [isItem_of_head_ne more hdash])]
  split
  · rename_i hline
    exact absurd (List.cons.inj hline).1 hbrace
  · rw [h]
    rfl

theorem read_empty {c : Comments} (hc : c.Legible) :
    read ((mapping c []).encode []).toList = .ok ⟨some (mapping ⟨c.head, c.line, []⟩ []), c.foot⟩ := by
  have hfile : IsFile (.mapping c []) :=
    .mapping hc (List.forall_mem_nil _) (List.forall_mem_nil _)
  have hsrc := sourceOf_renderAll hfile.legible
  have hnext := next?_head 1 0 c.head (['\x7b', '\x7d'] ++ trailing c.line)
    (commentLines 0 c.foot) []
  rw [List.append_nil, List.append_nil] at hnext
  have hroot (number number' : Nat) (src : Source) :
      root ⟨c.head, number, 0, ['\x7b', '\x7d'] ++ trailing c.line,
        numbered number' (commentLines 0 c.foot)⟩ src =
      .ok (mapping ⟨c.head, c.line, []⟩ [], numbered number' (commentLines 0 c.foot)) := by
    have hvalue := inlineValue_onLine (.mapping (c := c)) hc.line
    have hitem : isItem (['\x7b', '\x7d'] ++ trailing c.line) = false :=
      isItem_of_head_ne _ (by decide)
    unfold root
    rw [if_neg (by rw [hitem]; exact Bool.false_ne_true)]
    rw [hvalue]
    rfl
  rw [fileLines_empty, closedLine] at hsrc
  rw [encode, String.toList_ofList, fileLines_empty, closedLine, read, hsrc, ok_bind, hnext]
  simp only [hroot, ok_bind, next?_commentLines, leadingComments_commentLines]
  rfl

theorem read_entries {c : Comments} {key value : Tree} {rest : List (Tree × Tree)}
    (h : IsFile (.mapping c ((key, value) :: rest))) :
    read ((mapping c ((key, value) :: rest)).encode []).toList =
      .ok ⟨some (mapping {} (rereadEntries
        ((key.withHead (c.head ++ key.comments.head), value) :: rest))), c.foot⟩ := by
  have hsrc := sourceOf_renderAll h.legible
  cases h with
  | mapping hc hkeys hvalues =>
    have hkey : IsKey key := hkeys _ List.mem_cons_self
    have hhead : ∀ text ∈ c.head ++ key.comments.head, IsCommentLine text.toList := by
      rw [List.forall_mem_append]
      exact ⟨hc.head, hkey.comments.head⟩
    have hkey' := hkey.withHead hhead
    have hkeys' : ∀ entry ∈ (key.withHead (c.head ++ key.comments.head), value) :: rest,
        IsKey entry.1 := by
      rw [List.forall_mem_cons]
      exact ⟨hkey', fun entry hmem ↦ hkeys entry (List.mem_cons_of_mem _ hmem)⟩
    have hvalues' : ∀ entry ∈ (key.withHead (c.head ++ key.comments.head), value) :: rest,
        entry.2.Writable := by
      rw [List.forall_mem_cons]
      exact ⟨hvalues (key, value) List.mem_cons_self,
        fun entry hmem ↦ hvalues entry (List.mem_cons_of_mem _ hmem)⟩
    obtain ⟨number, hlines⟩ : ∃ number,
        numbered 1 (fileLines [] (.mapping c ((key, value) :: rest))) =
          numbered 1 (entryLines 0 ((key.withHead (c.head ++ key.comments.head), value) :: rest)) ++
            numbered number (commentLines 0 c.foot) := by
      rw [fileLines_entries, ← List.append_assoc, commentLines_entryLines, numbered_append]
      exact ⟨_, rfl⟩
    have hclosed : Closes 0 (numbered number (commentLines 0 c.foot)) := by
      intro step hstep
      rw [next?_commentLines] at hstep
      cases hstep
    have hread := reads_entries _ 1 _ hkeys' hvalues' hclosed
    obtain ⟨step, hnext, hindent, htext, -⟩ := next?_entryLines 1 0 value rest
      (numbered number (commentLines 0 c.foot)) hkey'
    rw [← hindent] at hread
    have hroot := root_entries hkey' htext hread
    rw [hindent] at hroot
    rw [encode, String.toList_ofList, read, hsrc, ok_bind, hlines, hnext]
    simp only [hroot, ok_bind, next?_commentLines, leadingComments_commentLines]
    rfl

/-- A file that was written is read back. -/
theorem read_encode {t : Tree} (h : t.IsFile) :
    ∃ content, read (t.encode []).toList = .ok content ∧
      content.root.map (·.withFoot content.foot) = some (rereadFile t) := by
  cases h with
  | mapping hc hkeys hvalues =>
    rename_i c entries
    rcases entries with _ | ⟨⟨key, value⟩, rest⟩
    · exact ⟨_, read_empty hc, rfl⟩
    · exact ⟨_, read_entries (.mapping hc hkeys hvalues), rfl⟩

end LayeredConfig.Reader
