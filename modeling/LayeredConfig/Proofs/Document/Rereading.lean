import LayeredConfig.Proofs.Document.Writable

/-!
# Trees as they are read back

Writing a tree does not keep everything. A value is read back without comments of its own, in the
style it was written in; the comments above a mapping belong to its first key or, inside a
sequence, to its item. What is read back has the same shape, keys and texts, and it is written
with the same lines.
-/

namespace LayeredConfig.Tree

open Text Inline

/-! ## Shape, keys and texts -/

mutual

/-- A tree without its comments and the styles of its scalars. -/
def bare : Tree → Tree
  | scalar _ text _ => scalar {} text .plain
  | mapping _ entries => mapping {} (bareEntries entries)
  | sequence _ items => sequence {} (bareItems items)

def bareEntries : List (Tree × Tree) → List (Tree × Tree)
  | [] => []
  | (key, value) :: rest => (bare key, bare value) :: bareEntries rest

def bareItems : List Tree → List Tree
  | [] => []
  | item :: rest => bare item :: bareItems rest

end

@[simp] theorem bare_withComments (c : Comments) (t : Tree) : (t.withComments c).bare = t.bare := by
  cases t <;> rfl

/-! ## Reading back -/

def rereadKey : Tree → Tree
  | scalar c text style => scalar ⟨c.head, c.line, []⟩ text (writtenStyle text.toList style)
  | key => key

mutual

def reread : Tree → Tree
  | scalar _ text style => scalar {} text (Scalar.styleFor text.toList style)
  | mapping _ entries => mapping {} (rereadEntries entries)
  | sequence _ items => sequence {} (rereadItems items)

def rereadEntries : List (Tree × Tree) → List (Tree × Tree)
  | [] => []
  | (key, value) :: rest => (rereadKey key, reread value) :: rereadEntries rest

def rereadItems : List Tree → List Tree
  | [] => []
  | mapping c ((key, value) :: entries) :: rest =>
    mapping ⟨c.head ++ key.comments.head, none, []⟩
      ((rereadKey (key.withHead []), reread value) :: rereadEntries entries) :: rereadItems rest
  | item :: rest =>
    (reread item).withComments ⟨item.comments.head, item.comments.line, []⟩ :: rereadItems rest

end

/-- A file as it is read back. Comments above the first key belong to that key. -/
def rereadFile : Tree → Tree
  | mapping c ((key, value) :: entries) =>
    mapping ⟨[], none, c.foot⟩
      ((rereadKey (key.withHead (c.head ++ key.comments.head)), reread value) ::
        rereadEntries entries)
  | t => t

theorem rereadItems_own {item : Tree} (h : IsOwnItem item) (rest : List Tree) :
    rereadItems (item :: rest) =
      (reread item).withComments ⟨item.comments.head, item.comments.line, []⟩ ::
        rereadItems rest := by
  cases h <;> rfl

theorem rereadItems_mapping (c : Comments) (key value : Tree) (entries : List (Tree × Tree))
    (rest : List Tree) :
    rereadItems (mapping c ((key, value) :: entries) :: rest) =
      mapping ⟨c.head ++ key.comments.head, none, []⟩
        ((rereadKey (key.withHead []), reread value) :: rereadEntries entries) ::
        rereadItems rest := by
  rw [rereadItems]

theorem IsKey.withHead {key : Tree} (h : IsKey key) {lines : List String}
    (hlines : ∀ text ∈ lines, IsCommentLine text.toList) : IsKey (key.withHead lines) := by
  cases h with
  | scalar hc => exact .scalar ⟨⟨hlines, hc.line, hc.foot⟩, hc.footless⟩

@[simp] theorem comments_reread (t : Tree) : (reread t).comments = {} := by
  cases t <;> rfl

/-! ## What is kept -/

theorem bare_rereadKey (key : Tree) : (rereadKey key).bare = key.bare := by
  cases key <;> rfl

mutual

/-- Reading back keeps the shape, the keys and the texts. -/
theorem bare_reread : ∀ t : Tree, (reread t).bare = t.bare
  | scalar .. => rfl
  | mapping _ entries => by rw [reread, bare, bare, bareEntries_rereadEntries entries]
  | sequence _ items => by rw [reread, bare, bare, bareItems_rereadItems items]

theorem bareEntries_rereadEntries :
    ∀ entries : List (Tree × Tree), bareEntries (rereadEntries entries) = bareEntries entries
  | [] => rfl
  | (key, value) :: rest => by
    rw [rereadEntries, bareEntries, bareEntries, bare_rereadKey, bare_reread value,
      bareEntries_rereadEntries rest]

theorem bareItems_rereadItems :
    ∀ items : List Tree, bareItems (rereadItems items) = bareItems items
  | [] => rfl
  | mapping c ((key, value) :: entries) :: rest => by
    rw [rereadItems_mapping, bareItems, bareItems, bare, bare, bareEntries, bareEntries,
      bare_rereadKey, withHead, bare_withComments, bare_reread value,
      bareEntries_rereadEntries entries, bareItems_rereadItems rest]
  | scalar c text style :: rest => by
    rw [rereadItems_own .scalar, bareItems, bareItems, bare_withComments, bare_reread,
      bareItems_rereadItems rest]
  | mapping c [] :: rest => by
    rw [rereadItems_own .mapping, bareItems, bareItems, bare_withComments, bare_reread,
      bareItems_rereadItems rest]
  | sequence c items :: rest => by
    rw [rereadItems_own .sequence, bareItems, bareItems, bare_withComments,
      bare_reread (sequence c items), bareItems_rereadItems rest]

end

theorem bare_rereadFile (t : Tree) : (rereadFile t).bare = t.bare := by
  unfold rereadFile
  split
  · rw [bare, bare, bareEntries, bareEntries, bare_rereadKey, withHead, bare_withComments,
      bare_reread, bareEntries_rereadEntries]
  · rfl

/-! ## What is written again -/

theorem styleFor_eq (text : List Char) (style : ScalarStyle) :
    Scalar.styleFor text style =
      if text.isEmpty && style = .plain then .plain else writtenStyle text style := by
  cases style with
  | plain => cases text <;> rfl
  | singleQuoted => simp [Scalar.styleFor, writtenStyle]
  | doubleQuoted => simp [Scalar.styleFor, writtenStyle]

theorem writtenStyle_eq_plain {style : ScalarStyle} (h : writtenStyle [] style = .plain) : False := by
  cases style <;> cases h

theorem inlineText_reread (t : Tree) : inlineText (reread t) = inlineText t := by
  cases t with
  | scalar c text style =>
    rw [reread, inlineText, inlineText, styleFor_eq]
    by_cases hblank : (text.toList.isEmpty && style = .plain) = true
    · rw [if_pos hblank, if_pos hblank, if_pos]
      simpa using And.left (by simpa using hblank)
    · rw [if_neg hblank, if_neg hblank, render_writtenStyle, if_neg]
      intro h
      rw [Bool.and_eq_true, List.isEmpty_iff, decide_eq_true_eq] at h
      rw [h.1] at h
      exact writtenStyle_eq_plain h.2
  | mapping c entries => cases entries <;> rfl
  | sequence c items =>
    cases items with
    | nil => rfl
    | cons item items =>
      cases hitem : item with
      | scalar => rfl
      | mapping c entries => cases entries <;> rfl
      | sequence => rfl

theorem keyBody_reread (key value : Tree) (h : IsKey key) :
    keyBody (rereadKey key) (reread value) = keyBody key value := by
  cases h with
  | scalar =>
    rw [keyBody, keyBody, inlineText_reread, rereadKey, keyText, keyText, render_writtenStyle]
    rfl

theorem keyLine_reread (indent : Nat) (lead : List Char) {key : Tree} (value : Tree)
    (h : IsKey key) :
    keyLine indent lead (rereadKey key) (reread value) = keyLine indent lead key value := by
  rw [keyLine_eq, keyLine_eq, keyBody_reread key value h]

@[simp] theorem inlineText_withComments (c : Comments) (t : Tree) :
    inlineText (t.withComments c) = inlineText t := by
  cases t with
  | scalar => rfl
  | mapping _ entries => cases entries <;> rfl
  | sequence _ items => cases items <;> rfl

theorem keyBody_withHead (lines : List String) (key value : Tree) :
    keyBody (key.withHead lines) value = keyBody key value := by
  cases key <;> rfl

theorem block_withComments (indent : Nat) {c : Comments} {t : Tree}
    (h : c.foot = t.comments.foot) : block indent (t.withComments c) = block indent t := by
  cases t with
  | scalar => rfl
  | mapping c' entries =>
    cases entries with
    | nil => rfl
    | cons entry entries =>
      have hfoot : c.foot = c'.foot := h
      rw [withComments, block, block, hfoot]
      · simp
      · simp
  | sequence => rfl

theorem IsOwnItem.reread {item : Tree} (h : IsOwnItem item) (c : Comments) :
    IsOwnItem ((Tree.reread item).withComments c) := by
  cases h with
  | scalar => exact .scalar
  | mapping => exact .mapping
  | sequence => exact .sequence

theorem head_rereadKey {key : Tree} (h : IsKey key) :
    (rereadKey key).comments.head = key.comments.head := by
  cases h
  rfl

theorem itemLines_reread_own {item : Tree} (hown : IsOwnItem item) {rest : List Tree}
    {indent : Nat}
    (hblock : block (indent + indentStep) (reread item) = block (indent + indentStep) item)
    (hrest : itemLines indent (rereadItems rest) = itemLines indent rest) :
    itemLines indent (rereadItems (item :: rest)) = itemLines indent (item :: rest) := by
  have hbody : itemBody ((reread item).withComments
      ⟨item.comments.head, item.comments.line, []⟩) = itemBody item := by
    rw [itemBody, itemBody, inlineText_withComments, inlineText_reread, comments_withComments]
  rw [rereadItems_own hown, itemLines_own _ (hown.reread _), itemLines_own _ hown, hbody,
    block_withComments _ (by simp), hblock, hrest, comments_withComments]

mutual

theorem block_reread : ∀ (t : Tree) (indent : Nat), t.Writable →
    block indent (reread t) = block indent t
  | .scalar .., _, _ => rfl
  | .mapping c entries, indent, h => by
    cases h with
    | mapping hc hkeys hvalues =>
      rw [reread, block_mapping rfl, block_mapping hc.footless]
      exact entryLines_rereadEntries entries indent hkeys hvalues
  | .sequence _ items, indent, h => by
    cases h with
    | sequence hc hitems => exact itemLines_rereadItems items indent hitems

theorem entryLines_rereadEntries : ∀ (entries : List (Tree × Tree)) (indent : Nat),
    (∀ entry ∈ entries, IsKey entry.1) → (∀ entry ∈ entries, entry.2.Writable) →
    entryLines indent (rereadEntries entries) = entryLines indent entries
  | [], _, _, _ => rfl
  | (key, value) :: rest, indent, hkeys, hvalues => by
    have hkey : IsKey key := hkeys _ List.mem_cons_self
    have hrest := entryLines_rereadEntries rest indent
      (fun entry hmem ↦ hkeys entry (List.mem_cons_of_mem _ hmem))
      (fun entry hmem ↦ hvalues entry (List.mem_cons_of_mem _ hmem))
    have hblock := block_reread value (indent + indentStep) (hvalues _ List.mem_cons_self)
    rw [rereadEntries, entryLines, entryLines, head_rereadKey hkey, keyLine_reread _ _ _ hkey,
      hblock, hrest]

theorem itemLines_rereadItems : ∀ (items : List Tree) (indent : Nat),
    (∀ item ∈ items, item.Writable) → itemLines indent (rereadItems items) = itemLines indent items
  | [], _, _ => rfl
  | .mapping c ((key, value) :: entries) :: rest, indent, hitems => by
    have hrest := itemLines_rereadItems rest indent
      (fun item hmem ↦ hitems item (List.mem_cons_of_mem _ hmem))
    cases hitems _ List.mem_cons_self with
    | mapping hc hkeys hvalues =>
      have hkey : IsKey key := hkeys _ List.mem_cons_self
      have hbare : IsKey (key.withHead []) := hkey.withHead (List.forall_mem_nil _)
      have hblock := block_reread value (indent + 2 + indentStep) (hvalues _ List.mem_cons_self)
      have hentries := entryLines_rereadEntries entries (indent + 2)
        (fun entry hmem ↦ hkeys entry (List.mem_cons_of_mem _ hmem))
        (fun entry hmem ↦ hvalues entry (List.mem_cons_of_mem _ hmem))
      have hhead : (rereadKey (key.withHead [])).comments.head = [] := by
        rw [head_rereadKey hbare, withHead, comments_withComments]
      have hline : keyLine indent ['-', ' '] (rereadKey (key.withHead [])) (reread value) =
          keyLine indent ['-', ' '] key value := by
        rw [keyLine_reread _ _ _ hbare, keyLine_eq, keyLine_eq, keyBody_withHead]
      rw [rereadItems_mapping, itemLines_mapping, itemLines_mapping, hhead, List.append_nil, hline,
        hblock, hentries, hrest]
  | .scalar c text style :: rest, indent, hitems => by
    have hblock := block_reread (.scalar c text style) (indent + indentStep)
      (hitems _ List.mem_cons_self)
    exact itemLines_reread_own .scalar hblock (itemLines_rereadItems rest indent
      (fun item hmem ↦ hitems item (List.mem_cons_of_mem _ hmem)))
  | .mapping c [] :: rest, indent, hitems => by
    have hblock := block_reread (.mapping c []) (indent + indentStep) (hitems _ List.mem_cons_self)
    exact itemLines_reread_own .mapping hblock (itemLines_rereadItems rest indent
      (fun item hmem ↦ hitems item (List.mem_cons_of_mem _ hmem)))
  | .sequence c items :: rest, indent, hitems => by
    have hblock := block_reread (.sequence c items) (indent + indentStep)
      (hitems _ List.mem_cons_self)
    exact itemLines_reread_own .sequence hblock (itemLines_rereadItems rest indent
      (fun item hmem ↦ hitems item (List.mem_cons_of_mem _ hmem)))

end

/-- A file that was read back is written as it was found. -/
theorem fileLines_rereadFile {t : Tree} (h : t.IsFile) :
    fileLines [] (rereadFile t) = fileLines [] t := by
  cases h with
  | mapping hc hkeys hvalues =>
    rename_i c entries
    rcases entries with _ | ⟨⟨key, value⟩, rest⟩
    · rfl
    · have hkey : IsKey key := hkeys _ List.mem_cons_self
      have hhead : ∀ text ∈ c.head ++ key.comments.head, IsCommentLine text.toList := by
        rw [List.forall_mem_append]
        exact ⟨hc.head, hkey.comments.head⟩
      have hkey' := hkey.withHead hhead
      have hentries := entryLines_rereadEntries rest 0
        (fun entry hmem ↦ hkeys entry (List.mem_cons_of_mem _ hmem))
        (fun entry hmem ↦ hvalues entry (List.mem_cons_of_mem _ hmem))
      have hblock := block_reread value (0 + indentStep) (hvalues _ List.mem_cons_self)
      have hline : keyLine 0 [] (rereadKey (key.withHead (c.head ++ key.comments.head)))
          (reread value) = keyLine 0 [] key value := by
        rw [keyLine_reread _ _ _ hkey', keyLine_eq, keyLine_eq, keyBody_withHead]
      rw [rereadFile, fileLines_entries, fileLines_entries, entryLines, entryLines, hblock,
        hentries, hline, head_rereadKey hkey', withHead, comments_withComments]
      simp [commentLines]

end LayeredConfig.Tree
