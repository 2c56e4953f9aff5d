import Mathlib
import LayeredConfig.Proofs.Document.Sharing

/-!
# Edits are local in the file

A mapping that is reached from the root through values of mappings stands in the file as one piece:
its entries at one column, with lines above and lines below that are none of its own. A text that
is overwritten changes the line of its key, a new key adds one line behind the last entry, and a
removed entry takes its own lines with it. All other lines stay as they are.
-/

namespace LayeredConfig

namespace Tree

variable {key : String} {v : Tree} {entries : List (Tree × Tree)}

theorem entryLines_append (indent : Nat) (a b : List (Tree × Tree)) :
    entryLines indent (a ++ b) = entryLines indent a ++ entryLines indent b := by
  induction a with
  | nil => rfl
  | cons entry rest ih =>
    rw [List.cons_append, entryLines, entryLines, ih]
    simp only [List.cons_append, List.append_assoc]

theorem keyLine_mapping (h : entries ≠ []) (indent : Nat) (lead : List Char) (key : Tree)
    (c : Comments) :
    keyLine indent lead key (.mapping c entries) =
      .content indent (lead ++ keyText key ++ ':' :: trailing key.comments.line) := by
  cases entries with
  | nil => exact absurd rfl h
  | cons entry rest =>
    have hinline : inlineText (.mapping c (entry :: rest)) = [] := rfl
    rw [keyLine, hinline, List.append_assoc (lead ++ keyText key)]
    rfl

theorem block_entries (h : entries ≠ []) (indent : Nat) (c : Comments) :
    block indent (.mapping c entries) = entryLines indent entries ++ commentLines indent c.foot := by
  cases entries with
  | nil => exact absurd rfl h
  | cons =>
    rw [block]
    exact h

/-- The first value under a key becomes another. -/
theorem update_split {f : Change} {before after : List (Tree × Tree)} {k w : Tree} (c : Comments)
    (hbefore : ∀ entry ∈ before, ¬ hasKey key entry = true) (hkey : hasKey key (k, v) = true)
    (hf : f (some v) = .ok w) :
    (mapping c (before ++ (k, v) :: after)).update key f =
      .ok (mapping c (before ++ (k, w) :: after)) := by
  have hlookup : lookupEntries key (before ++ (k, v) :: after) = some v :=
    lookupEntries_eq_some_iff.2 ⟨before, k, after, rfl, hbefore, hkey⟩
  have hsame : f (lookupEntries key (before ++ (k, v) :: after)) =
      (fun _ ↦ .ok w : Change) (lookupEntries key (before ++ (k, v) :: after)) := by
    rw [hlookup, hf]
  exact update_eq_ok_iff.2
    ⟨c, _, _, rfl, (updateEntries_congr hsame).trans (updateEntries_split hbefore hkey w), rfl⟩

/-- A value under a key that was not there comes last. -/
theorem update_of_lookup_none {f : Change} {w : Tree} (c : Comments)
    (hnone : lookupEntries key entries = none) (hf : f none = .ok w) :
    (mapping c entries).update key f = .ok (mapping c (entries ++ [(newScalar key, w)])) := by
  have hsame : f (lookupEntries key entries) =
      (fun _ ↦ .ok w : Change) (lookupEntries key entries) := by
    rw [hnone, hf]
  exact update_eq_ok_iff.2
    ⟨c, _, _, rfl, (updateEntries_congr hsame).trans (updateEntries_of_lookup_none hnone w), rfl⟩

end Tree

namespace Document

open LayeredConfig.Tree

/-! ## The lines of a document -/

/-- These are the lines of the file that holds a document. -/
def HasLines (d : Document) (lines : List Line) : Prop :=
  d.encode d.root [] = String.ofList (Line.renderAll lines) ∧ ∀ line ∈ lines, '\n' ∉ line.render

/-- Values of mappings lead from the root to a node. -/
inductive Reaches (d : Document) : NodeId → Prop
  | root : Reaches d d.root
  | value {map : NodeId} {entry : NodeId × NodeId} (h : Reaches d map)
      (hentry : entry ∈ d.entries map) : Reaches d entry.2

variable {d d' : Document} {t : Tree} {id map : NodeId} {key text : String}
  {places : List NodeId} {c : Comments} {trees : List (Tree × Tree)} {indent : Nat}
  {above below : List Line}

theorem Orderly.hasLines {isKey : NodeId → Prop} (h : d.Orderly isKey) (ht : d.Holds t) :
    d.HasLines (fileLines [] t) := by
  obtain ⟨t', htree, hfile⟩ := h.exists_tree
  obtain rfl := Option.some.inj (htree.symm.trans ht.tree?)
  exact ⟨encode_of_treeAt? htree [], fun line hline ↦ (Line.clean_render (hfile.legible line hline)).oneLine⟩

/-! ## The place of a mapping in the file -/

/-- An entry of the table is an entry of the tree. -/
theorem HangEntries.split {entries : List (NodeId × NodeId)} {entry : NodeId × NodeId}
    (h : HangEntries d trees entries places) (hentry : entry ∈ entries) :
    ∃ before k v after front back frontPlaces keyPlaces valuePlaces backPlaces,
      trees = before ++ (k, v) :: after ∧ entries = front ++ entry :: back ∧
      places = frontPlaces ++ (keyPlaces ++ (valuePlaces ++ backPlaces)) ∧
      HangEntries d before front frontPlaces ∧ Hangs d k entry.1 keyPlaces ∧
      Hangs d v entry.2 valuePlaces ∧ HangEntries d after back backPlaces := by
  induction entries generalizing trees places with
  | nil => cases hentry
  | cons first rest ih =>
    cases h with
    | cons hkey hvalue hrest =>
      rcases List.mem_cons.1 hentry with rfl | hentry
      · exact ⟨[], _, _, _, [], _, [], _, _, _, rfl, rfl, rfl, .nil, hkey, hvalue, hrest⟩
      · obtain ⟨before, k, v, after, front, back, frontPlaces, keyPlaces, valuePlaces, backPlaces,
          rfl, rfl, rfl, hbefore, hrest⟩ := ih hrest hentry
        refine ⟨_, k, v, after, _, back, _, keyPlaces, valuePlaces, backPlaces, rfl, rfl, ?_,
          .cons hkey hvalue hbefore, hrest⟩
        simp only [List.append_assoc]

/-- The entries of a mapping stand in the file at a column, between the lines above and the lines
below them. Other entries that the mapping is given stand in their place. -/
structure Shown (d : Document) (c : Comments) (trees : List (Tree × Tree)) (map : NodeId)
    (places : List NodeId) (indent : Nat) (above below : List Line) : Prop where
  hangs : Hangs d (.mapping c trees) map places
  nodup : places.Nodup
  lines : ∀ {d' : Document} {trees' : List (Tree × Tree)} {places' : List NodeId}, trees' ≠ [] →
    Becomes d places d' (.mapping c trees') map places' →
    ∃ t, d'.Holds t ∧ fileLines [] t = above ++ entryLines indent trees' ++ below

theorem shown_root (hangs : Hangs d (.mapping c trees) d.root places) (hnodup : places.Nodup) :
    Shown d c trees d.root places 0 (commentLines 0 c.head) (commentLines 0 c.foot) := by
  refine ⟨hangs, hnodup, fun {d' trees' places'} hne hbecomes ↦ ⟨_, hbecomes.holds, ?_⟩⟩
  cases trees' with
  | nil => exact absurd rfl hne
  | cons entry entries => rw [fileLines_entries, List.append_assoc]

theorem Hangs.exists_mapping (h : Hangs d t map places) (hne : d.entries map ≠ []) :
    ∃ c trees, t = .mapping c trees := by
  cases h with
  | scalar node =>
    rw [Document.entries, node] at hne
    exact absurd rfl hne
  | sequence node =>
    rw [Document.entries, node] at hne
    exact absurd rfl hne
  | mapping => exact ⟨_, _, rfl⟩

/-- The value of an entry stands below the line of its key. -/
theorem Shown.value (h : Shown d c trees map places indent above below)
    {entry : NodeId × NodeId} (hentry : entry ∈ d.entries map) (hne : d.entries entry.2 ≠ []) :
    ∃ c trees places above below,
      Shown d c trees entry.2 places (indent + indentStep) above below := by
  obtain ⟨hangs, hnodup, hlines⟩ := h
  cases hangs with
  | mapping node hbelow =>
    rw [entries_eq node] at hentry
    obtain ⟨before, k, v, after, front, back, frontPlaces, keyPlaces, valuePlaces, backPlaces, rfl,
      rfl, rfl, hbefore, hkey, hvalue, hafter⟩ := hbelow.split hentry
    obtain ⟨c', inner, rfl⟩ := hvalue.exists_mapping hne
    have hparts := (List.nodup_cons.1 hnodup).2
    have hmap := (List.nodup_cons.1 hnodup).1
    simp only [List.nodup_append] at hparts
    simp only [List.mem_append, not_or] at hmap
    refine ⟨c', inner, valuePlaces,
      above ++ entryLines indent before ++ commentLines indent k.comments.head ++
        [.content indent (keyText k ++ ':' :: trailing k.comments.line)],
      commentLines (indent + indentStep) c'.foot ++ entryLines indent after ++ below,
      hvalue, hparts.2.1.2.1.1, fun {d' inner' places'} hinner hbecomes ↦ ?_⟩
    have hreplaced := Becomes.replace hbefore hkey hafter node hnodup hbecomes.root hbecomes.size
      (fun i hi hnot ↦ hbecomes.frame i hi fun hmem ↦ hnot (List.mem_cons_of_mem _ hmem))
      ((hbecomes.frame map (lt_size_of_node? node) hmap.2.2.1).trans node) hbecomes.hangs
      hbecomes.nodup hbecomes.fresh
    obtain ⟨t, ht, hfile⟩ := hlines (by simp) hreplaced
    refine ⟨t, ht, hfile.trans ?_⟩
    rw [entryLines_append, entryLines, keyLine_mapping hinner, block_entries hinner]
    simp only [List.append_assoc, List.cons_append, List.nil_append]

theorem Reaches.shown (h : d.Reaches map) (ht : d.Holds t) (hne : d.entries map ≠ []) :
    ∃ c trees places indent above below, Shown d c trees map places indent above below := by
  induction h with
  | root =>
    obtain ⟨places, hangs, hnodup⟩ := ht
    obtain ⟨c, trees, rfl⟩ := hangs.exists_mapping hne
    exact ⟨c, trees, places, 0, _, _, shown_root hangs hnodup⟩
  | value _ hentry ih =>
    obtain ⟨c, trees, places, indent, above, below, hshown⟩ := ih (List.ne_nil_of_mem hentry)
    obtain ⟨c', trees', places', above', below', hshown'⟩ := hshown.value hentry hne
    exact ⟨c', trees', places', indent + indentStep, above', below', hshown'⟩

/-- What a mapping becomes is written in the place of what it was. -/
theorem Shown.hasLines {isKey : NodeId → Prop} (h : Shown d c trees map places indent above below)
    (horderly : d'.Orderly isKey) {trees' : List (Tree × Tree)} {places' : List NodeId}
    (hne : trees' ≠ []) (hbecomes : Becomes d places d' (.mapping c trees') map places') :
    d'.HasLines (above ++ entryLines indent trees' ++ below) := by
  obtain ⟨t, ht, hfile⟩ := h.lines hne hbecomes
  rw [← hfile]
  exact horderly.hasLines ht

/-! ## Edits that succeed -/

theorem exists_setText_of_get? {old : String} (h : d.get? map key = some old) (text : String) :
    ∃ d' entry, d.setText map key text = .ok (d', entry) := by
  obtain ⟨found, hfound, hold⟩ := Option.bind_eq_some_iff.1 h
  cases hset : d.setText map key text with
  | ok result => exact ⟨result.1, result.2, rfl⟩
  | error e =>
    rcases setText_error hset with ⟨hmap, -⟩ | ⟨entry, hentry, hnot, -⟩
    · rw [isMapping_of_found hfound] at hmap
      cases hmap
    · obtain rfl := Option.some.inj (hfound.symm.trans hentry)
      rw [hold] at hnot
      cases hnot

theorem exists_setText_of_none (hmap : d.isMapping map = true) (h : d.findEntry? map key = none)
    (text : String) : ∃ d' entry, d.setText map key text = .ok (d', entry) := by
  cases hset : d.setText map key text with
  | ok result => exact ⟨result.1, result.2, rfl⟩
  | error e =>
    rcases setText_error hset with ⟨hnot, -⟩ | ⟨entry, hentry, -⟩
    · rw [hmap] at hnot
      cases hnot
    · rw [h] at hentry
      cases hentry

/-! ## The changed lines -/

/-- A text that is overwritten changes the value of the first entry under its key. -/
theorem Shown.overwrite {isKey : NodeId → Prop} {old : String}
    (h : Shown d c trees map places indent above below) (horderly : d.Orderly isKey)
    (hold : d.get? map key = some old) (text : String) :
    ∃ d' entry before k comments style after,
      d.setText map key text = .ok (d', entry) ∧
      trees = before ++ (k, .scalar comments old style) :: after ∧ k.text? = some key ∧
      (∀ entry ∈ before, entry.1.text? ≠ some key) ∧
      d'.HasLines (above ++ entryLines indent (before ++
        (k, .scalar comments text (Scalar.styleFor text.toList style)) :: after) ++ below) := by
  obtain ⟨d', entry, hset⟩ := exists_setText_of_get? hold text
  obtain ⟨isKey', horderly'⟩ := horderly.setText hset
  obtain ⟨t', places', hstore, hbecomes⟩ := h.hangs.setText h.nodup hset
  rw [h.hangs.get?_eq h.nodup] at hold
  obtain ⟨v, hlookup, htext⟩ := Option.bind_eq_some_iff.1 hold
  obtain ⟨before, k, after, rfl, hbefore, hkey⟩ := lookupEntries_eq_some_iff.1 hlookup
  cases v with
  | mapping => cases htext
  | sequence => cases htext
  | scalar comments _ style =>
    obtain rfl := Option.some.inj htext
    refine ⟨d', entry, before, k, comments, style, after, hset, rfl, hasKey_iff.1 hkey,
      fun e hmem heq ↦ hbefore e hmem (hasKey_iff.2 heq), ?_⟩
    rw [update_split c hbefore hkey rfl] at hstore
    obtain rfl := Except.ok.inj hstore
    exact h.hasLines horderly' (by simp) hbecomes

/-- A new key comes last. -/
theorem Shown.insert {isKey : NodeId → Prop} (h : Shown d c trees map places indent above below)
    (horderly : d.Orderly isKey) (hnone : d.findEntry? map key = none) (text : String) :
    ∃ d' entry, d.setText map key text = .ok (d', entry) ∧
      d'.HasLines (above ++ entryLines indent (trees ++ [(newScalar key, newScalar text)]) ++
        below) := by
  obtain ⟨d', entry, hset⟩ := exists_setText_of_none h.hangs.isMapping_eq hnone text
  obtain ⟨isKey', horderly'⟩ := horderly.setText hset
  obtain ⟨t', places', hstore, hbecomes⟩ := h.hangs.setText h.nodup hset
  have hlookup : lookupEntries key trees = none := h.hangs.lookup?_eq_none hnone
  rw [update_of_lookup_none c hlookup rfl] at hstore
  obtain rfl := Except.ok.inj hstore
  exact ⟨d', entry, hset, h.hasLines horderly' (by simp) hbecomes⟩

/-- A removed entry is the first one under its key. -/
theorem Shown.remove {isKey : NodeId → Prop} {entry : Entry}
    (h : Shown d c trees map places indent above below) (horderly : d.Orderly isKey)
    (hfound : d.findEntry? map key = some entry) (htwo : 2 ≤ trees.length) :
    ∃ d' before k v after,
      d.removeEntry map key = some (d', entry) ∧ trees = before ++ (k, v) :: after ∧
      k.text? = some key ∧ (∀ entry ∈ before, entry.1.text? ≠ some key) ∧
      d'.HasLines (above ++ entryLines indent (before ++ after) ++ below) := by
  obtain ⟨d', hremove⟩ : ∃ d', d.removeEntry map key = some (d', entry) := by
    rw [Document.removeEntry, hfound]
    exact ⟨_, rfl⟩
  obtain ⟨t', places', hremoved, hbecomes⟩ := h.hangs.removeEntry h.nodup hremove
  obtain ⟨v, valuePlaces, hlookup, -⟩ := h.hangs.inside h.nodup hfound
  obtain ⟨before, k, after, rfl, hbefore, hkey⟩ := lookupEntries_eq_some_iff.1 hlookup
  refine ⟨d', before, k, v, after, hremove, rfl, hasKey_iff.1 hkey,
    fun e hmem heq ↦ hbefore e hmem (hasKey_iff.2 heq), ?_⟩
  rw [remove?, if_pos (List.any_eq_true.2 ⟨(k, v), by simp, hkey⟩), eraseP_split hbefore hkey]
    at hremoved
  obtain rfl := Option.some.inj hremoved
  refine h.hasLines (horderly.removeEntry hremove) (fun hnil ↦ ?_) hbecomes
  have hlength := congrArg List.length hnil
  simp only [List.length_append, List.length_cons, List.length_nil] at hlength htwo
  omega

/-- How the lines of a file follow the edits of one mapping in it, whose entries stand at a column
between the lines above and below. -/
structure LocalEdits (d : Document) (map : NodeId) (trees : List (Tree × Tree)) (indent : Nat)
    (above below : List Line) : Prop where
  lines : d.HasLines (above ++ entryLines indent trees ++ below)
  /-- One line changes: the one of the first key with this text, whose comments stay. -/
  overwrite : ∀ key old text, d.get? map key = some old →
    ∃ d' entry before k comments style after,
      d.setText map key text = .ok (d', entry) ∧
      trees = before ++ (k, .scalar comments old style) :: after ∧
      k.text? = some key ∧ (∀ entry ∈ before, entry.1.text? ≠ some key) ∧
      let front := above ++ entryLines indent before ++ commentLines indent k.comments.head
      let back := entryLines indent after ++ below
      d.HasLines (front ++ keyLine indent [] k (.scalar comments old style) :: back) ∧
      d'.HasLines (front ++
        keyLine indent [] k (.scalar comments text (Scalar.styleFor text.toList style)) :: back)
  /-- One line is new, directly behind the last entry. -/
  insert : ∀ key text, d.findEntry? map key = none →
    ∃ d' entry, d.setText map key text = .ok (d', entry) ∧
      d'.HasLines (above ++ entryLines indent trees ++
        keyLine indent [] (newScalar key) (newScalar text) :: below)
  /-- The lines of the entry are gone: its head comments, the line of its key and its block. -/
  remove : ∀ key entry, d.findEntry? map key = some entry → 2 ≤ trees.length →
    ∃ d' before k v after,
      d.removeEntry map key = some (d', entry) ∧ trees = before ++ (k, v) :: after ∧
      k.text? = some key ∧ (∀ entry ∈ before, entry.1.text? ≠ some key) ∧
      let front := above ++ entryLines indent before
      let back := entryLines indent after ++ below
      d.HasLines (front ++ (commentLines indent k.comments.head ++
        keyLine indent [] k v :: block (indent + indentStep) v) ++ back) ∧
      d'.HasLines (front ++ back)

theorem Shown.localEdits {isKey : NodeId → Prop}
    (h : Shown d c trees map places indent above below) (horderly : d.Orderly isKey)
    (hne : trees ≠ []) : d.LocalEdits map trees indent above below := by
  have hlines : d.HasLines (above ++ entryLines indent trees ++ below) :=
    h.hasLines horderly hne (.refl h.hangs h.nodup)
  refine ⟨hlines, fun key old text hold ↦ ?_, fun key text hnone ↦ ?_,
    fun key entry hfound htwo ↦ ?_⟩
  · obtain ⟨d', entry, before, k, comments, style, after, hset, rfl, hkey, hbefore, hlines'⟩ :=
      h.overwrite horderly hold text
    refine ⟨d', entry, before, k, comments, style, after, hset, rfl, hkey, hbefore, ?_, ?_⟩
    · simpa only [entryLines_append, entryLines, block, List.append_assoc, List.cons_append,
        List.nil_append] using hlines
    · simpa only [entryLines_append, entryLines, block, List.append_assoc, List.cons_append,
        List.nil_append] using hlines'
  · obtain ⟨d', entry, hset, hlines'⟩ := h.insert horderly hnone text
    refine ⟨d', entry, hset, ?_⟩
    rwa [entryLines_append, ← List.append_assoc, List.append_assoc _ _ below] at hlines'
  · obtain ⟨d', before, k, v, after, hremove, rfl, hkey, hbefore, hlines'⟩ :=
      h.remove horderly hfound htwo
    refine ⟨d', before, k, v, after, hremove, rfl, hkey, hbefore, ?_, ?_⟩
    · simpa only [entryLines_append, entryLines, List.append_assoc, List.cons_append] using hlines
    · simpa only [entryLines_append, List.append_assoc] using hlines'

/-- In a document that was read and edited, a mapping that values of mappings lead to and that has
an entry stands in the file between other lines, and an edit of it changes no lines but its own. -/
theorem localEdits_of_parse {text : String} {start : Document} (hparse : parse text = .ok start)
    (edits : List Edit) {map : NodeId} (hreach : (start.editAll edits).Reaches map)
    (hne : (start.editAll edits).entries map ≠ []) :
    ∃ c trees indent above below,
      (start.editAll edits).treeAt? map = some (.mapping c trees) ∧
      (start.editAll edits).LocalEdits map trees indent above below := by
  obtain ⟨isKey, hstart⟩ := orderly_of_parse hparse
  obtain ⟨isKey, horderly⟩ := hstart.editAll edits
  obtain ⟨t, ht⟩ := ((sound_of_parse hparse).1.editAll edits).holds
  obtain ⟨c, trees, places, indent, above, below, hshown⟩ := hreach.shown ht hne
  have htrees : trees ≠ [] := by
    cases hshown.hangs with
    | mapping node hbelow =>
      rw [entries_eq node] at hne
      cases hbelow with
      | nil => exact absurd rfl hne
      | cons => exact List.cons_ne_nil _ _
  exact ⟨c, trees, indent, above, below, hshown.hangs.treeAt? hshown.nodup,
    hshown.localEdits horderly htrees⟩

/-- A host behind a comment, in a mapping that was given a second setting. -/
theorem localEdits_of_parse_host :
    let text := "hosts:\n  a:\n    # mine\n    token: x # old\nlast: 1\n"
    let edits := [Edit.setText ⟨5⟩ "user" "y"]
    ∃ start, parse text = .ok start ∧ (start.editAll edits).Reaches ⟨5⟩ ∧
      (start.editAll edits).entries ⟨5⟩ ≠ [] ∧ ∃ c trees indent above below,
        (start.editAll edits).treeAt? ⟨5⟩ = some (.mapping c trees) ∧
        (start.editAll edits).LocalEdits ⟨5⟩ trees indent above below := by
  intro text edits
  obtain ⟨start, hparse, hhosts, hhost, hne⟩ : ∃ start, parse text = .ok start ∧
      (⟨2⟩, ⟨3⟩) ∈ (start.editAll edits).entries (start.editAll edits).root ∧
      (⟨4⟩, ⟨5⟩) ∈ (start.editAll edits).entries ⟨3⟩ ∧ (start.editAll edits).entries ⟨5⟩ ≠ [] :=
    ⟨_, by cbv, by decide +kernel, by decide +kernel, by decide +kernel⟩
  have hreach : (start.editAll edits).Reaches ⟨5⟩ := .value (.value .root hhosts) hhost
  exact ⟨start, hparse, hreach, hne, localEdits_of_parse hparse edits hreach hne⟩

end Document

end LayeredConfig
