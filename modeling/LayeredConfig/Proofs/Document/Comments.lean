import Mathlib
import LayeredConfig.Proofs.Document.RoundTrip

/-!
# Comments survive edits

The comments of a text are the texts of its comment lines and of what stands behind its keys and
values, from top to bottom. Reading a text puts every one of them into the tree, in this order,
and storing texts adds none and takes none away. Writing leaves out one kind only: the comment on
the line of a mapping that has entries and is the file itself or an item of a sequence, since no
line of its own is written for such a mapping.
-/

namespace LayeredConfig

open Text

namespace Reader

open Inline

/-! ## The comments of a text -/

/-- The comment behind a value, or the one that stands in its place. -/
def valueComment? (text : List Char) : Option String :=
  match placement text with
  | .below comment => comment
  | .inline =>
    match inlineValue text with
    | .ok (_, comment) => comment
    | .error _ => none

def keyComment? (text : List Char) : Option String :=
  match splitKey text with
  | .ok (some key) => valueComment? (trimStart key.rest)
  | _ => none

/-- The comment behind what follows a dash. -/
def bodyComment? (body : List Char) : Option String :=
  match placement body, splitKey body with
  | .inline, .ok (some _) => keyComment? body
  | _, _ => valueComment? body

def contentComment? (text : List Char) : Option String :=
  match itemBody? text with
  | some body => bodyComment? body
  | none => keyComment? text

/-- The comments on all lines, each of which is a comment or may end in one. -/
def lineComments : Source → List String
  | [] => []
  | (_, .comment _ text) :: rest => String.ofList text :: lineComments rest
  | (_, .content _ text) :: rest => (contentComment? text).toList ++ lineComments rest

/-- A first line that starts with a brace holds no key but the value of the file. -/
def fileComments (src : Source) : List String :=
  match next? src with
  | some step =>
    if step.text.head? = some '\x7b' then
      step.comments ++ (valueComment? step.text).toList ++ lineComments step.rest
    else lineComments src
  | none => lineComments src

/-- The comments of a text from top to bottom; a blank line counts as an empty one. -/
def commentTexts (text : String) : List String :=
  match sourceOf 1 (Text.lines text.toList) with
  | .ok src => fileComments src
  | .error _ => []

end Reader

namespace Tree

/-! ## The comments of a tree -/

/-- The comments above a line and at its end. -/
def lineComments (t : Tree) : List String :=
  t.comments.head ++ t.comments.line.toList

mutual

/-- The comments of all lines below the line of a value. -/
def commentsBelow : Tree → List String
  | scalar .. => []
  | mapping _ entries => entryComments entries
  | sequence _ items => itemComments items

def entryComments : List (Tree × Tree) → List String
  | [] => []
  | (key, value) :: rest => key.lineComments ++ commentsBelow value ++ entryComments rest

def itemComments : List Tree → List String
  | [] => []
  | item :: rest => item.lineComments ++ commentsBelow item ++ itemComments rest

end

def fileComments (t : Tree) : List String :=
  t.lineComments ++ commentsBelow t ++ t.comments.foot

@[simp] theorem commentsBelow_withComments (c : Comments) (t : Tree) :
    (t.withComments c).commentsBelow = t.commentsBelow := by
  cases t <;> rfl

theorem fileComments_withFoot (lines : List String) (t : Tree) :
    (t.withFoot lines).fileComments = t.lineComments ++ t.commentsBelow ++ lines := by
  cases t <;> rfl

end Tree

namespace Reader

open Inline LayeredConfig.Tree

/-! ## Reading collects the comments -/

theorem lineComments_of_next? {src : Source} {step : Step} (h : next? src = some step) :
    lineComments src =
      step.comments ++ (contentComment? step.text).toList ++ lineComments step.rest := by
  induction h using next?_some_induction with
  | content number indent text rest => rfl
  | comment number indent text rest step h ih =>
    rw [lineComments, ih]
    rfl

theorem lineComments_of_none {src : Source} (h : next? src = none) :
    lineComments src = leadingComments src := by
  induction h using next?_none_induction with
  | nil => rfl
  | comment number indent text rest h ih => rw [lineComments, leadingComments, ih]

theorem valueComment?_below {text : List Char} {comment : Option String}
    (h : placement text = .below comment) : valueComment? text = comment := by
  rw [valueComment?, h]

theorem valueComment?_inline {text : List Char} {read : Commented}
    (hplace : placement text = .inline) (hread : inlineValue text = .ok read) :
    valueComment? text = read.2 ∧ read.1.commentsBelow = [] := by
  rw [valueComment?, hplace, hread]
  refine ⟨rfl, ?_⟩
  unfold inlineValue at hread
  split at hread
  case h_1 =>
    obtain ⟨comment, -, hread⟩ := bind_eq_ok_iff.1 hread
    obtain rfl := Except.ok.inj hread
    rfl
  case h_3 =>
    obtain ⟨comment, -, hread⟩ := bind_eq_ok_iff.1 hread
    obtain rfl := Except.ok.inj hread
    rfl
  case h_10 =>
    obtain ⟨found, -, hread⟩ := bind_eq_ok_iff.1 hread
    obtain ⟨comment, -, hread⟩ := bind_eq_ok_iff.1 hread
    obtain rfl := Except.ok.inj hread
    rfl
  all_goals cases hread

theorem contentComment?_key {text : List Char} {key : Scalar} (hitem : isItem text = false)
    (hkey : splitKey text = .ok (some key)) :
    contentComment? text = valueComment? (trimStart key.rest) := by
  rw [isItem, Option.isSome_eq_false_iff, Option.isNone_iff_eq_none] at hitem
  rw [contentComment?, hitem, keyComment?, hkey]

theorem bodyComment?_below {body : List Char} {comment : Option String}
    (h : placement body = .below comment) : bodyComment? body = comment := by
  unfold bodyComment?
  split
  · rename_i hplace _
    rw [h] at hplace
    cases hplace
  · exact valueComment?_below h

/-- The first key of an item is a key like any other. -/
theorem bodyComment?_key {body : List Char} {key : Scalar} (hplace : placement body = .inline)
    (hitem : isItem body = false) (hkey : splitKey body = .ok (some key)) :
    bodyComment? body = contentComment? body := by
  rw [bodyComment?, hplace, hkey, keyComment?, hkey, contentComment?_key hitem hkey]

theorem bodyComment?_inline {body : List Char} {read : Commented}
    (hplace : placement body = .inline) (hkey : splitKey body = .ok none)
    (hread : inlineValue body = .ok read) : bodyComment? body = read.2 := by
  rw [bodyComment?, hplace, hkey]
  exact (valueComment?_inline hplace hread).1

mutual

theorem lineComments_of_entries {indent : Nat} {src : Source}
    {parsed : Parsed (List (Tree × Tree)) (weight src)} (h : entries indent src = .ok parsed) :
    lineComments src = entryComments parsed.value ++ lineComments parsed.rest := by
  rcases entries_eq_ok h with ⟨hnil, hrest⟩ |
    ⟨step, key, first, more, hnext, hitem, hkey, hvalue, hmore, hcons, hrest⟩
  · rw [hnil, hrest]
    rfl
  · have hlt := weight_of_next? hnext
    have hle := first.le
    have hfirst := lineComments_of_value hvalue
    have hmore := lineComments_of_entries hmore
    rw [lineComments_of_next? hnext, contentComment?_key hitem hkey, List.append_assoc, hfirst,
      hmore, hcons, hrest, entryComments, Tree.lineComments, Tree.comments]
    simp only [List.append_assoc]
termination_by (weight src, 0)

theorem lineComments_of_value {indent : Nat} {text : List Char} {number : Nat} {src : Source}
    {parsed : Parsed Commented (weight src)} (h : value indent text number src = .ok parsed) :
    (valueComment? text).toList ++ lineComments src =
      parsed.value.2.toList ++ commentsBelow parsed.value.1 ++ lineComments parsed.rest := by
  rcases value_eq_ok h with ⟨hplace, hread, hrest⟩ | ⟨comment, hplace, hbelow⟩
  · obtain ⟨hcomment, hnone⟩ := valueComment?_inline hplace hread
    rw [hcomment, hnone, hrest, List.append_nil]
  · rw [valueComment?_below hplace]
    rcases hbelow with ⟨column, found, hitems, hvalue, hrest⟩ | ⟨found, hnested, hvalue, hrest⟩
    · rw [lineComments_of_items hitems, hvalue, hrest, List.append_assoc, commentsBelow]
    · rw [lineComments_of_nested hnested, hvalue, hrest, List.append_assoc]
termination_by (weight src, 2)

theorem lineComments_of_nested {indent : Nat} {src : Source} {parsed : Parsed Tree (weight src)}
    (h : nested indent src = .ok parsed) :
    lineComments src = commentsBelow parsed.value ++ lineComments parsed.rest := by
  rcases nested_eq_ok h with ⟨hempty, hrest⟩ | ⟨column, found, hitems, hvalue, hrest⟩ |
    ⟨column, found, hentries, hvalue, hrest⟩
  · rw [hempty, hrest]
    rfl
  · rw [lineComments_of_items hitems, hvalue, hrest, commentsBelow]
  · rw [lineComments_of_entries hentries, hvalue, hrest, commentsBelow]
termination_by (weight src, 1)

theorem lineComments_of_items {indent : Nat} {src : Source}
    {parsed : Parsed (List Tree) (weight src)} (h : items indent src = .ok parsed) :
    lineComments src = itemComments parsed.value ++ lineComments parsed.rest := by
  rcases items_eq_ok h with ⟨hnil, hrest⟩ |
    ⟨step, body, hbody, first, more, hnext, hitem, hmore, hcons, hrest⟩
  · rw [hnil, hrest]
    rfl
  · have hlt := weight_of_next? hnext
    have hle := first.le
    have hfirst := lineComments_of_item hitem
    have hmore := lineComments_of_items hmore
    rw [lineComments_of_next? hnext, contentComment?, hbody, List.append_assoc, hfirst, hmore,
      hcons, hrest, itemComments, Tree.lineComments, withHead, comments_withComments,
      commentsBelow_withComments]
    simp only [List.append_assoc]
termination_by (weight src, 0)

theorem lineComments_of_item {indent : Nat} {step : Step} {body : List Char}
    {hbody : body.length < step.text.length}
    {parsed : Parsed Tree (weight step.rest + 2 * step.text.length)}
    (h : item indent step body hbody = .ok parsed) :
    (bodyComment? body).toList ++ lineComments step.rest =
      parsed.value.comments.line.toList ++ commentsBelow parsed.value ++
        lineComments parsed.rest := by
  rcases item_eq_ok h with ⟨comment, found, hplace, hnested, hvalue, hbehind⟩ |
    ⟨key, column, found, hplace, hitem, hkey, hentries, hvalue, hbehind⟩ |
    ⟨tree, comment, hplace, hkey, hread, hvalue, hbehind⟩
  · rw [bodyComment?_below hplace, lineComments_of_nested hnested, hvalue, hbehind, withLine,
      comments_withComments, commentsBelow_withComments, List.append_assoc]
  · have hfound := lineComments_of_entries hentries
    rw [lineComments] at hfound
    rw [bodyComment?_key hplace hitem hkey, hfound, hvalue, hbehind, commentsBelow]
    rfl
  · rw [bodyComment?_inline hplace hkey hread, hvalue, hbehind, withLine, comments_withComments,
      commentsBelow_withComments, (valueComment?_inline hplace hread).2, List.append_nil]
termination_by (weight step.rest + 2 * step.text.length, 0)
decreasing_by
  · exact Prod.Lex.left _ _ (by omega)
  · exact Prod.Lex.left _ _ (by simp only [weight, lineWeight]; omega)

end

theorem fileComments_of_root {step : Step} {src rest : Source} {tree : Tree}
    (hnext : next? src = some step) (h : root step src = .ok (tree, rest)) :
    fileComments src = tree.lineComments ++ tree.commentsBelow ++ lineComments rest := by
  unfold root at h
  split at h
  · cases h
  rw [fileComments, hnext]
  dsimp only
  split at h
  · rename_i tail htext
    obtain ⟨⟨value, comment⟩, hread, h⟩ := bind_eq_ok_iff.1 h
    obtain ⟨rfl, rfl⟩ := Prod.mk.inj (Except.ok.inj h)
    have hplace : placement step.text = .inline := by
      rw [htext]
      rfl
    obtain ⟨hcomment, hnone⟩ := valueComment?_inline hplace (mapError_eq_ok_iff.1 hread)
    rw [if_pos (by rw [htext, List.head?_cons]), hcomment, Tree.lineComments,
      comments_withComments, commentsBelow_withComments, hnone, List.append_nil]
  · rename_i hbrace
    obtain ⟨parsed, hentries, h⟩ := bind_eq_ok_iff.1 h
    obtain ⟨rfl, rfl⟩ := Prod.mk.inj (Except.ok.inj h)
    rw [if_neg, lineComments_of_entries hentries, commentsBelow]
    · rfl
    · intro hhead
      obtain ⟨tail, htail⟩ := List.head?_eq_some_iff.1 hhead
      exact hbrace tail htail

end Reader

namespace Document

open LayeredConfig.Tree

/-- The comments of a text are those of the tree that is read from it. -/
theorem commentTexts_of_parse {text : String} {d : Document} (h : parse text = .ok d) :
    ∃ t, d.tree? = some t ∧ Reader.commentTexts text = t.fileComments := by
  obtain ⟨content, hread, h⟩ := bind_eq_ok_iff.1 h
  unfold Reader.read at hread
  obtain ⟨src, hsrc, hread⟩ := bind_eq_ok_iff.1 hread
  rw [Reader.commentTexts, hsrc]
  dsimp only
  split at hread
  · rename_i hnone
    obtain rfl := Except.ok.inj hread
    obtain rfl := Except.ok.inj h
    refine ⟨_, rfl, ?_⟩
    rw [Reader.fileComments, hnone]
    exact Reader.lineComments_of_none hnone
  · rename_i step hnext
    obtain ⟨⟨tree, rest⟩, hroot, hread⟩ := bind_eq_ok_iff.1 hread
    dsimp only at hread
    split at hread
    · cases hread
    · rename_i hnone
      obtain rfl := Except.ok.inj hread
      obtain rfl := Except.ok.inj h
      refine ⟨_, treeAt?_addTree empty _, ?_⟩
      rw [Reader.fileComments_of_root hnext hroot, Reader.lineComments_of_none hnone,
        fileComments_withFoot]

/-! ## Storing texts keeps the comments -/

/-- A scalar around which nothing is written. -/
def IsBlank (d : Document) (id : NodeId) : Prop :=
  ∃ text style, d.node? id = some ⟨.scalar text style, {}⟩

/-- What becomes of a node when a text is stored: its comments stay, and entries that are new to
it have none. -/
inductive Stays (d : Document) : Node → Node → Prop
  | scalar {text text' : String} {style style' : ScalarStyle} {c : Comments} :
      Stays d ⟨.scalar text style, c⟩ ⟨.scalar text' style', c⟩
  | mapping {entries added : List (NodeId × NodeId)} {c : Comments}
      (blank : ∀ entry ∈ added, d.IsBlank entry.1 ∧ d.IsBlank entry.2) :
      Stays d ⟨.mapping entries, c⟩ ⟨.mapping (entries ++ added), c⟩
  | sequence {items : List NodeId} {c : Comments} : Stays d ⟨.sequence items, c⟩ ⟨.sequence items, c⟩

theorem Stays.refl (d : Document) (node : Node) : Stays d node node := by
  obtain ⟨kind, c⟩ := node
  cases kind with
  | scalar => exact .scalar
  | mapping entries =>
    have h : Stays d ⟨.mapping entries, c⟩ ⟨.mapping (entries ++ []), c⟩ :=
      .mapping (List.forall_mem_nil _)
    rwa [List.append_nil] at h
  | sequence => exact .sequence

section

variable {d d' : Document} {depth depth' : Nat}

theorem stays_of_setText {map : NodeId} {key text : String} {entry : Entry}
    (h : d.setText map key text = .ok (d', entry)) {id : NodeId} {node : Node}
    (hnode : d.node? id = some node) : ∃ node', d'.node? id = some node' ∧ Stays d' node node' := by
  obtain ⟨hmap, ⟨hfound, old, style, c, hvalue, rfl⟩ | ⟨-, rfl⟩⟩ := setText_cases h
  · rw [node?_setKind]
    split
    · rename_i heq
      rw [heq, hvalue] at hnode
      obtain rfl := Option.some.inj hnode
      rw [heq, hvalue]
      exact ⟨_, rfl, .scalar⟩
    · exact ⟨node, hnode, .refl _ node⟩
  · obtain ⟨entries, c, hparent⟩ := node?_of_isMapping hmap
    have hlt := lt_size_of_node? hnode
    have hnodes := node?_addEntry hparent key
      (.scalar text (Scalar.styleFor text.toList .plain))
    rw [hnodes, if_neg (by omega), if_neg (by omega)]
    split
    · rename_i heq
      rw [heq, hparent] at hnode
      obtain rfl := Option.some.inj hnode
      have hkey : (d.addEntry map key (.scalar text (Scalar.styleFor text.toList .plain))).IsBlank
          ⟨d.nodes.size⟩ := by
        refine ⟨key, Scalar.styleFor key.toList .plain, ?_⟩
        rw [hnodes, if_neg (by simp), if_pos rfl]
      have hvalue : (d.addEntry map key (.scalar text (Scalar.styleFor text.toList .plain))).IsBlank
          ⟨d.nodes.size + 1⟩ := by
        refine ⟨text, Scalar.styleFor text.toList .plain, ?_⟩
        rw [hnodes, if_pos rfl]
      exact ⟨_, rfl, .mapping (List.forall_mem_singleton.2 ⟨hkey, hvalue⟩)⟩
    · exact ⟨node, hnode, .refl _ node⟩

theorem IsBlank.unfold {id : NodeId} {t : Tree} (h : d.IsBlank id)
    (ht : Document.unfold d.nodes depth id = some t) :
    t.lineComments = [] ∧ t.commentsBelow = [] := by
  obtain ⟨text, style, hnode⟩ := h
  cases depth with
  | zero => cases ht
  | succ depth =>
    rw [unfold_scalar depth hnode] at ht
    obtain rfl := Option.some.inj ht
    exact ⟨rfl, rfl⟩

/-- Two trees with the same comments. -/
structure SameComments (t t' : Tree) : Prop where
  own : t'.comments = t.comments
  below : t'.commentsBelow = t.commentsBelow

theorem SameComments.line {t t' : Tree} (h : SameComments t t') :
    t'.lineComments = t.lineComments := by
  rw [Tree.lineComments, h.own, Tree.lineComments]

/-- The trees that unfold from a node of both tables have the same comments. -/
def SameAt (d d' : Document) (depth depth' : Nat) : Prop :=
  ∀ id t t', unfold d.nodes depth id = some t → unfold d'.nodes depth' id = some t' →
    SameComments t t'

theorem entryComments_of_blank {added : List (NodeId × NodeId)} {trees : List (Tree × Tree)}
    (h : ∀ entry ∈ added, d.IsBlank entry.1 ∧ d.IsBlank entry.2)
    (htrees : added.mapM (unfoldEntry d.nodes depth) = some trees) : entryComments trees = [] := by
  induction added generalizing trees with
  | nil =>
    obtain rfl := Option.some.inj htrees
    rfl
  | cons entry added ih =>
    obtain ⟨⟨hkey, hvalue⟩, hadded⟩ := List.forall_mem_cons.1 h
    obtain ⟨⟨key, value⟩, rest, hentry, hrest, rfl⟩ := mapM_cons_eq_some_iff.1 htrees
    obtain ⟨hkeyTree, hvalueTree⟩ := unfoldEntry_eq_some_iff.1 hentry
    rw [entryComments, (hkey.unfold hkeyTree).1, (hvalue.unfold hvalueTree).2, ih hadded hrest]
    rfl

theorem entryComments_of_mapM (hsame : SameAt d d' depth depth')
    {entries added : List (NodeId × NodeId)} {trees trees' : List (Tree × Tree)}
    (hadded : ∀ entry ∈ added, d'.IsBlank entry.1 ∧ d'.IsBlank entry.2)
    (h : entries.mapM (unfoldEntry d.nodes depth) = some trees)
    (h' : (entries ++ added).mapM (unfoldEntry d'.nodes depth') = some trees') :
    entryComments trees' = entryComments trees := by
  induction entries generalizing trees trees' with
  | nil =>
    obtain rfl := Option.some.inj h
    exact entryComments_of_blank hadded h'
  | cons entry entries ih =>
    rw [List.cons_append] at h'
    obtain ⟨⟨k, v⟩, rest, hentry, hrest, rfl⟩ := mapM_cons_eq_some_iff.1 h
    obtain ⟨⟨k', v'⟩, rest', hentry', hrest', rfl⟩ := mapM_cons_eq_some_iff.1 h'
    obtain ⟨hk, hv⟩ := unfoldEntry_eq_some_iff.1 hentry
    obtain ⟨hk', hv'⟩ := unfoldEntry_eq_some_iff.1 hentry'
    rw [entryComments, entryComments, (hsame _ _ _ hk hk').line, (hsame _ _ _ hv hv').below,
      ih hrest hrest']

theorem itemComments_of_mapM (hsame : SameAt d d' depth depth') {items : List NodeId}
    {trees trees' : List Tree} (h : items.mapM (unfold d.nodes depth) = some trees)
    (h' : items.mapM (unfold d'.nodes depth') = some trees') :
    itemComments trees' = itemComments trees := by
  induction items generalizing trees trees' with
  | nil =>
    obtain rfl := Option.some.inj h
    obtain rfl := Option.some.inj h'
    rfl
  | cons item items ih =>
    obtain ⟨t, rest, ht, hrest, rfl⟩ := mapM_cons_eq_some_iff.1 h
    obtain ⟨t', rest', ht', hrest', rfl⟩ := mapM_cons_eq_some_iff.1 h'
    have hitem := hsame _ _ _ ht ht'
    rw [itemComments, itemComments, hitem.line, hitem.below, ih hrest hrest']

/-- The induction is on the depth of the tree before; the tree behind may be deeper. -/
theorem sameAt_of_stays (h : ∀ id node, d.node? id = some node →
      ∃ node', d'.node? id = some node' ∧ Stays d' node node') (depth depth' : Nat) :
    SameAt d d' depth depth' := by
  induction depth generalizing depth' with
  | zero =>
    intro id t t' ht
    cases ht
  | succ depth ih =>
    intro id t t' ht ht'
    cases depth' with
    | zero => cases ht'
    | succ depth' =>
      cases hnode : d.node? id with
      | none =>
        have hnone : unfold d.nodes (depth + 1) id = none := by
          rw [unfold, show d.nodes[id.index]? = none from hnode]
          rfl
        rw [hnone] at ht
        cases ht
      | some node =>
        obtain ⟨node', hnode', hstays⟩ := h id node hnode
        cases hstays with
        | scalar =>
          rw [unfold_scalar depth hnode] at ht
          rw [unfold_scalar depth' hnode'] at ht'
          obtain rfl := Option.some.inj ht
          obtain rfl := Option.some.inj ht'
          exact ⟨rfl, rfl⟩
        | mapping hblank =>
          rw [unfold_mapping depth hnode] at ht
          rw [unfold_mapping depth' hnode'] at ht'
          obtain ⟨trees, htrees, rfl⟩ := Option.map_eq_some_iff.1 ht
          obtain ⟨trees', htrees', rfl⟩ := Option.map_eq_some_iff.1 ht'
          exact ⟨rfl, entryComments_of_mapM (ih depth') hblank htrees htrees'⟩
        | sequence =>
          rw [unfold_sequence depth hnode] at ht
          rw [unfold_sequence depth' hnode'] at ht'
          obtain ⟨trees, htrees, rfl⟩ := Option.map_eq_some_iff.1 ht
          obtain ⟨trees', htrees', rfl⟩ := Option.map_eq_some_iff.1 ht'
          exact ⟨rfl, itemComments_of_mapM (ih depth') htrees htrees'⟩

theorem fileComments_of_setText {map : NodeId} {key text : String} {entry : Entry} {t t' : Tree}
    (h : d.setText map key text = .ok (d', entry)) (ht : d.tree? = some t)
    (ht' : d'.tree? = some t') : t'.fileComments = t.fileComments := by
  have hroot : d'.root = d.root := by
    obtain ⟨-, ⟨-, old, style, c, -, rfl⟩ | ⟨-, rfl⟩⟩ := setText_cases h <;> rfl
  rw [tree?, treeAt?, hroot] at ht'
  have hsame := sameAt_of_stays (fun _ _ hnode ↦ stays_of_setText h hnode) _ _ _ t t' ht ht'
  rw [fileComments, fileComments, hsame.line, hsame.below, hsame.own]

/-- An edit that stores a text. -/
def Edit.Stores : Edit → Prop
  | .setText .. => True
  | .removeEntry .. => False
  | .ensureMapping .. => False

theorem fileComments_of_edit {e : Edit} {t t' : Tree} (h : e.Stores) (ht : d.tree? = some t)
    (ht' : (d.edit e).tree? = some t') : t'.fileComments = t.fileComments := by
  cases e with
  | setText map key text =>
    simp only [edit] at ht'
    split at ht'
    · rename_i hset
      exact fileComments_of_setText hset ht ht'
    · rw [ht] at ht'
      rw [Option.some.inj ht']
  | removeEntry => exact h.elim
  | ensureMapping => exact h.elim

/-- However many texts are stored, the tree keeps its comments. -/
theorem fileComments_of_editAll {isKey : NodeId → Prop} {edits : List Edit} {t t' : Tree}
    (h : d.Orderly isKey) (hedits : ∀ e ∈ edits, e.Stores) (ht : d.tree? = some t)
    (ht' : (d.editAll edits).tree? = some t') : t'.fileComments = t.fileComments := by
  induction edits generalizing d isKey t with
  | nil =>
    rw [editAll, List.foldl_nil, ht] at ht'
    rw [Option.some.inj ht']
  | cons e edits ih =>
    obtain ⟨he, hedits⟩ := List.forall_mem_cons.1 hedits
    obtain ⟨isKey', h'⟩ := h.edit e
    obtain ⟨u, hu, -⟩ := h'.exists_tree
    rw [ih h' hedits hu ht', fileComments_of_edit he ht hu]

end

end Document

namespace Tree

/-! ## Comments for which no line is written -/

/-- The comment on the line of a mapping that has entries. -/
def hiddenLine : Tree → List String
  | mapping c (_ :: _) => c.line.toList
  | _ => []

mutual

def hiddenBelow : Tree → List String
  | scalar .. => []
  | mapping _ entries => hiddenInEntries entries
  | sequence _ items => hiddenInItems items

def hiddenInEntries : List (Tree × Tree) → List String
  | [] => []
  | (_, value) :: rest => hiddenBelow value ++ hiddenInEntries rest

def hiddenInItems : List Tree → List String
  | [] => []
  | item :: rest => hiddenLine item ++ hiddenBelow item ++ hiddenInItems rest

end

/-- The comments of a file that are not written. -/
def hiddenComments (t : Tree) : List String :=
  hiddenLine t ++ hiddenBelow t

/-- A list of comments without some of them; what is kept stays in order. -/
structure Loses (all lost kept : List String) : Prop where
  order : kept.Sublist all
  perm : (kept ++ lost).Perm all

theorem Loses.none (all : List String) : Loses all [] all :=
  ⟨List.Sublist.refl _, by rw [List.append_nil]⟩

theorem Loses.all (lost : List String) : Loses lost lost [] :=
  ⟨List.nil_sublist _, List.Perm.refl _⟩

theorem Loses.append {all all' lost lost' kept kept' : List String} (h : Loses all lost kept)
    (h' : Loses all' lost' kept') : Loses (all ++ all') (lost ++ lost') (kept ++ kept') := by
  refine ⟨h.order.append h'.order, ?_⟩
  rw [List.perm_iff_count]
  intro comment
  have hcount := h.perm.count_eq comment
  have hcount' := h'.perm.count_eq comment
  simp only [List.count_append] at hcount hcount' ⊢
  omega

theorem Loses.eq_iff {all lost kept : List String} (h : Loses all lost kept) :
    kept = all ↔ lost = [] := by
  have hlength := h.perm.length_eq
  rw [List.length_append] at hlength
  constructor
  · rintro rfl
    exact List.eq_nil_of_length_eq_zero (by omega)
  · rintro rfl
    exact h.order.eq_of_length hlength

@[simp] theorem lineComments_rereadKey (key : Tree) :
    (rereadKey key).lineComments = key.lineComments := by
  cases key <;> rfl

theorem lineComments_withComments (c : Comments) (t : Tree) :
    (t.withComments c).lineComments = c.head ++ c.line.toList := by
  rw [lineComments, comments_withComments]

theorem lineComments_withHead (lines : List String) (t : Tree) :
    (t.withHead lines).lineComments = lines ++ t.comments.line.toList := by
  cases t <;> rfl

theorem loses_own {item : Tree} (hown : IsOwnItem item) {rest : List Tree}
    (hitem : Loses item.commentsBelow item.hiddenBelow (reread item).commentsBelow)
    (hrest : Loses (itemComments rest) (hiddenInItems rest) (itemComments (rereadItems rest))) :
    Loses (itemComments (item :: rest)) (hiddenInItems (item :: rest))
      (itemComments (rereadItems (item :: rest))) := by
  have hline : item.hiddenLine = [] := by cases hown <;> rfl
  rw [rereadItems_own hown, itemComments, itemComments, hiddenInItems, hline,
    commentsBelow_withComments, lineComments_withComments]
  exact ((Loses.none item.lineComments).append hitem).append hrest

mutual

theorem loses_reread : ∀ t : Tree, Loses t.commentsBelow t.hiddenBelow (reread t).commentsBelow
  | .scalar .. => .none []
  | .mapping _ entries => loses_rereadEntries entries
  | .sequence _ items => loses_rereadItems items

theorem loses_rereadEntries : ∀ entries : List (Tree × Tree),
    Loses (entryComments entries) (hiddenInEntries entries) (entryComments (rereadEntries entries))
  | [] => .none []
  | (key, value) :: rest => by
    rw [entryComments, hiddenInEntries, rereadEntries, entryComments, lineComments_rereadKey]
    exact ((Loses.none key.lineComments).append (loses_reread value)).append
      (loses_rereadEntries rest)

theorem loses_rereadItems : ∀ items : List Tree,
    Loses (itemComments items) (hiddenInItems items) (itemComments (rereadItems items))
  | [] => .none []
  | .mapping c ((key, value) :: entries) :: rest => by
    -- The item's own comment stands between the comments above it and those of its first key.
    have hitem := (((Loses.none c.head).append (Loses.all c.line.toList)).append
      (Loses.none key.lineComments)).append
      ((loses_reread value).append (loses_rereadEntries entries))
    have hitems := hitem.append (loses_rereadItems rest)
    rw [rereadItems_mapping]
    simp only [itemComments, hiddenInItems, hiddenLine, hiddenBelow, hiddenInEntries,
      commentsBelow, entryComments, lineComments_rereadKey, lineComments_withHead]
    simpa [lineComments, comments] using hitems
  | .scalar c text style :: rest =>
    loses_own .scalar (loses_reread (.scalar c text style)) (loses_rereadItems rest)
  | .mapping c [] :: rest =>
    loses_own .mapping (loses_reread (.mapping c [])) (loses_rereadItems rest)
  | .sequence c items :: rest =>
    loses_own .sequence (loses_reread (.sequence c items)) (loses_rereadItems rest)

end

theorem loses_rereadFile {t : Tree} (h : t.IsFile) :
    Loses t.fileComments t.hiddenComments t.rereadFile.fileComments := by
  cases h with
  | mapping =>
    rename_i c entries _ _ _
    rcases entries with _ | ⟨⟨key, value⟩, rest⟩
    · exact .none _
    · have hfile := ((((Loses.none c.head).append (Loses.all c.line.toList)).append
        (Loses.none key.lineComments)).append
        ((loses_reread value).append (loses_rereadEntries rest))).append (Loses.none c.foot)
      rw [rereadFile]
      simp only [fileComments, hiddenComments, hiddenLine, hiddenBelow, hiddenInEntries,
        commentsBelow, entryComments, lineComments_rereadKey, lineComments_withHead]
      simpa [lineComments, comments] using hfile

end Tree

namespace Document

open LayeredConfig.Tree Reader

/-- Whatever texts are stored in a document that was read, its comments are written in their
order, all of them but the hidden ones. -/
theorem comments_encode_editAll {text : String} {start : Document} (hstart : parse text = .ok start)
    {edits : List Edit} (hedits : ∀ e ∈ edits, e.Stores) :
    let d := start.editAll edits
    let written := commentTexts (d.encode d.root [])
    ∃ t, d.tree? = some t ∧ written.Sublist (commentTexts text) ∧
      (written ++ t.hiddenComments).Perm (commentTexts text) ∧
      (written = commentTexts text ↔ t.hiddenComments = []) := by
  intro d written
  obtain ⟨isKey, horderly⟩ := orderly_of_parse hstart
  obtain ⟨isKey', horderly'⟩ := horderly.editAll edits
  obtain ⟨t, htree, hfile⟩ := horderly'.exists_tree
  obtain ⟨u, hu, htext⟩ := commentTexts_of_parse hstart
  obtain ⟨t', ht', hwritten⟩ := commentTexts_of_parse (parse_encode hfile)
  obtain rfl := Option.some.inj (ht'.symm.trans (tree?_ofFile _))
  have hlost := loses_rereadFile hfile
  have hencode : d.encode d.root [] = t.encode [] := encode_of_treeAt? htree []
  rw [fileComments_of_editAll horderly hedits hu htree, ← htext, ← hwritten, ← hencode] at hlost
  exact ⟨t, htree, hlost.order, hlost.perm, hlost.eq_iff⟩

theorem comments_encode_editAll_items :
    let text := "# top\nh: # all\n- # first\n  a: b # here\n# end\n"
    let edits := [Edit.setText ⟨4⟩ "a" "c", .setText ⟨1⟩ "b" "# none"]
    ∃ start, parse text = .ok start ∧
      let d := start.editAll edits
      let written := commentTexts (d.encode d.root [])
      ∃ t, d.tree? = some t ∧ written.Sublist (commentTexts text) ∧
        (written ++ t.hiddenComments).Perm (commentTexts text) ∧
        (written = commentTexts text ↔ t.hiddenComments = []) := by
  intro text edits
  obtain ⟨start, hstart⟩ : ∃ start, parse text = .ok start := ⟨_, by cbv⟩
  refine ⟨start, hstart, comments_encode_editAll hstart ?_⟩
  rw [List.forall_mem_cons, List.forall_mem_singleton]
  exact ⟨trivial, trivial⟩

/-- The comment behind the braces of an empty file has no line once the file has an entry. -/
theorem comment_behind_braces_lost :
    ¬ ∀ text start edits, parse text = .ok start → (∀ e ∈ edits, Edit.Stores e) →
      commentTexts ((start.editAll edits).encode (start.editAll edits).root []) =
        commentTexts text := by
  intro h
  have hall := h "{} # c\n" (ofFile (.mapping ⟨[], some "# c", []⟩ []))
    [.setText ⟨1⟩ "a" "b"] (by cbv) (List.forall_mem_singleton.2 trivial)
  exact absurd hall (by decide +kernel)

end Document

end LayeredConfig
