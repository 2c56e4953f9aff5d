import Mathlib
import LayeredConfig.Proofs.Document.Cursor
import LayeredConfig.Proofs.Document.ErrorLines
import LayeredConfig.Proofs.Document.Growth

/-!
# The cursor stays in the table

Read with a cursor, every text has an outcome: the cursor never leaves the table, a line is taken
only where content stands, lines are cut between characters only, every node that is changed is
there, and the loops end. The outcome is that of the reader without positions.
-/

namespace LayeredConfig

open Text

namespace Cursor

open Inline
open Reader hiding read root

/-! ## Where the cursor stands -/

/-- These lines are left. -/
def At (c : Cursor) (src : Source) : Prop :=
  c.position ≤ c.lines.size ∧ c.lines.toList.drop c.position = src

section

variable {c : Cursor} {src : Source}

theorem firstContent?_eq (src : Source) :
    firstContent? src = (next? src).map fun step ↦ (step.number, step.indent, step.text) := by
  fun_induction firstContent? src with
  | case1 => rfl
  | case2 number indent text rest ih =>
    rw [ih, next?, Option.map_map]
    rfl
  | case3 number indent text rest => rfl

theorem peek?_eq (h : c.At src) :
    c.peek? = some ((next? src).map fun step ↦ (step.number, step.indent, step.text)) := by
  rw [peek?, if_pos h.1, h.2, firstContent?_eq]

theorem getElem?_of_at (h : c.At src) : c.lines[c.position]? = src.head? := by
  rw [← h.2, List.head?_drop, Array.getElem?_toList]

theorem At.next {first : Nat × Line} {rest : Source} (h : c.At (first :: rest)) :
    ({ c with position := c.position + 1 } : Cursor).At rest := by
  have hfirst := getElem?_of_at h
  obtain ⟨hlt, -⟩ := Array.getElem?_eq_some_iff.1 hfirst
  refine ⟨hlt, ?_⟩
  have hdrop := congrArg List.tail h.2
  rwa [List.tail_drop] at hdrop

/-- The lines from the first one on that is no comment. -/
def afterComments : Source → Source
  | (_, .comment ..) :: rest => afterComments rest
  | src => src

theorem takeComments_eq (h : c.At src) :
    ∃ position, c.takeComments = (leadingComments src, { c with position }) ∧
      ({ c with position } : Cursor).At (afterComments src) := by
  have hfirst := getElem?_of_at h
  induction src generalizing c with
  | nil =>
    refine ⟨c.position, ?_, h⟩
    rw [takeComments]
    split
    · rename_i heq
      rw [hfirst] at heq
      cases heq
    · rfl
  | cons first rest ih =>
    obtain ⟨number, line⟩ := first
    cases line with
    | comment indent text =>
      obtain ⟨position, htake, hat⟩ := ih h.next (getElem?_of_at h.next)
      refine ⟨position, ?_, hat⟩
      rw [takeComments]
      split
      · rename_i heq
        rw [hfirst] at heq
        obtain ⟨-, -, rfl⟩ := heq
        rw [htake]
        rfl
      · rename_i hother
        exact absurd hfirst (hother _ _ _)
    | content indent text =>
      refine ⟨c.position, ?_, h⟩
      rw [takeComments]
      split
      · rename_i heq
        rw [hfirst] at heq
        cases heq
      · rfl

theorem afterComments_of_next? {step : Reader.Step} (h : next? src = some step) :
    leadingComments src = step.comments ∧
      afterComments src = (step.number, .content step.indent step.text) :: step.rest := by
  induction h using next?_some_induction with
  | content number indent text rest => exact ⟨rfl, rfl⟩
  | comment number indent text rest step h ih => exact ⟨congrArg _ ih.1, ih.2⟩

theorem firstContent?_afterComments (src : Source) :
    firstContent? (afterComments src) = firstContent? src := by
  induction src with
  | nil => rfl
  | cons first rest ih =>
    obtain ⟨number, line⟩ := first
    cases line with
    | comment indent text => exact ih
    | content indent text => rfl

/-- Behind the comments the line is taken that was seen ahead. -/
theorem take_of_next? {step : Reader.Step} (h : c.At src) (hnext : next? src = some step) :
    ∃ position position', c.takeComments = (step.comments, { c with position }) ∧
      takeLine? { c with position } =
        some ((step.number, step.text), { c with position := position' }) ∧
      ({ c with position := position' } : Cursor).At step.rest ∧ 0 < position' := by
  obtain ⟨hcomments, hafter⟩ := afterComments_of_next? hnext
  obtain ⟨position, htake, hat⟩ := takeComments_eq h
  rw [hcomments] at htake
  rw [hafter] at hat
  refine ⟨position, position + 1, htake, ?_, hat.next, Nat.succ_pos _⟩
  have hfirst := getElem?_of_at hat
  rw [takeLine?, hfirst]
  rfl

theorem putBack?_eq (h : c.At src) (hpos : 0 < c.position) (line : Nat × Line) :
    ∃ c', c.putBack? line = some c' ∧ c'.At (line :: src) ∧ c'.document = c.document := by
  have hlt : c.position - 1 < c.lines.size := by
    have := h.1
    omega
  refine ⟨_, if_pos ⟨hpos, hlt⟩, ⟨?_, ?_⟩, rfl⟩
  · dsimp only
    rw [Array.size_setIfInBounds]
    exact Nat.le_of_lt hlt
  · have hlength : c.position - 1 < (c.lines.toList.set (c.position - 1) line).length := by
      rwa [List.length_set, Array.length_toList]
    have hposition : c.position - 1 + 1 = c.position := Nat.sub_add_cancel hpos
    dsimp only
    rw [Array.toList_setIfInBounds, List.drop_eq_getElem_cons hlength, List.getElem_set_self,
      List.drop_set_of_lt (Nat.lt_succ_self _), Nat.succ_eq_add_one, hposition, h.2]

end

/-! ## Agreement -/

/-- The cursor comes to the same as the reader: to the same error or to something found that is
related to what was read. -/
def Matches {α γ : Type} (R : α → γ → Prop) (outcome : Outcome γ) : Except SyntaxError α → Prop
  | .ok read => ∃ found, outcome = pure found ∧ R read found
  | .error e => outcome = throw e

/-- The same for a part of the reader, which leaves lines behind. -/
abbrev Agrees {α γ : Type} {bound : Nat} (R : α → Source → γ → Prop) (outcome : Outcome γ)
    (expected : Except SyntaxError (Parsed α bound)) : Prop :=
  Matches (fun parsed ↦ R parsed.value parsed.rest) outcome expected

section

variable {α β γ δ : Type} {R : α → γ → Prop} {S : β → δ → Prop} {outcome : Outcome γ}
  {expected : Except SyntaxError α}

theorem Matches.bind {next : γ → Outcome δ} {next' : α → Except SyntaxError β}
    (h : Matches R outcome expected)
    (hnext : ∀ read found, R read found → Matches S (next found) (next' read)) :
    Matches S (outcome >>= next) (expected >>= next') := by
  cases expected with
  | error e =>
    rw [show outcome = throw e from h]
    exact rfl
  | ok read =>
    obtain ⟨found, rfl, hfound⟩ := h
    rw [pure_bind]
    exact hnext read found hfound

/-- What was read may be seen in another way. -/
theorem Matches.map {S : β → γ → Prop} {wrap : α → Except SyntaxError β}
    (h : Matches R outcome expected)
    (hwrap : ∀ read found, R read found → ∃ read', wrap read = .ok read' ∧ S read' found) :
    Matches S outcome (expected >>= wrap) := by
  cases expected with
  | error e => exact h
  | ok read =>
    obtain ⟨found, houtcome, hfound⟩ := h
    obtain ⟨read', hread, hfound'⟩ := hwrap read found hfound
    rw [ok_bind, hread]
    exact ⟨found, houtcome, hfound'⟩

/-- What was found may be seen in another way. -/
theorem Matches.found {S : α → δ → Prop} {wrap : γ → δ} (h : Matches R outcome expected)
    (hwrap : ∀ read found, R read found → S read (wrap found)) :
    Matches S (outcome >>= fun found ↦ pure (wrap found)) expected := by
  cases expected with
  | error e =>
    rw [show outcome = throw e from h]
    exact rfl
  | ok read =>
    obtain ⟨found, rfl, hfound⟩ := h
    exact ⟨_, rfl, hwrap read found hfound⟩

theorem matches_placed {number : Nat} (read : Except SyntaxFault α) {next : α → Outcome δ}
    {next' : α → Except SyntaxError β}
    (hnext : ∀ found, read = .ok found → Matches S (next found) (next' found)) :
    Matches S (placed number (Checked.of read) >>= next) (onLine number read >>= next') := by
  cases read with
  | error fault => exact rfl
  | ok found => exact hnext found rfl

end

/-- A tree was added behind the nodes of a document. -/
def Adds (d : Document) (t : Tree) (rest : Source) (found : NodeId × Cursor) : Prop :=
  found.2.At rest ∧ (found.2.document, found.1) = d.addTree t

def AddsValue (d : Document) (read : Commented) (rest : Source)
    (found : (NodeId × Option String) × Cursor) : Prop :=
  Adds d read.1 rest (found.1.1, found.2) ∧ found.1.2 = read.2

/-- Entries were added to a mapping of the document, and their nodes behind its nodes. -/
def AddsEntries (d : Document) (map : NodeId) (entries : List (Tree × Tree)) (rest : Source)
    (c : Cursor) : Prop :=
  c.At rest ∧ c.document = (d.modify map (Document.addEntries (Document.entryIds d.nodes.size
    entries))).extend (Document.entryLayout d.nodes.size entries)

def AddsItems (d : Document) (seq : NodeId) (items : List Tree) (rest : Source) (c : Cursor) :
    Prop :=
  c.At rest ∧ c.document = (d.modify seq (Document.addItems (Document.itemIds d.nodes.size
    items))).extend (Document.itemLayout d.nodes.size items)

/-! ## The parts of the reader -/

/-- The node of a value without anything below it. -/
def leafKind : Tree → NodeKind
  | .scalar _ text style => .scalar text style
  | .mapping .. => .mapping []
  | .sequence .. => .sequence []

theorem found_bind {ε α β : Type} (a : α) (next : α → Checked ε β) :
    (liftM (some a) : Checked ε α) >>= next = next a :=
  rfl

theorem inlineNode_eq {text : List Char} (h : text ≠ []) :
    inlineNode text =
      Checked.of ((inlineValue text).map fun read ↦ (leafKind read.1, read.2)) := by
  obtain ⟨c, rest, rfl⟩ := List.exists_cons_of_ne_nil h
  have hat (a : Char) (ha : a.toNat < 128) : isAt? (c :: rest) 0 a = some (c == a) :=
    isAt?_byteLength ha [] c rest
  unfold inlineNode
  rw [hat _ (by decide), hat _ (by decide), hat _ (by decide), hat _ (by decide),
    hat _ (by decide), hat _ (by decide), hat _ (by decide), scalarAt_eq]
  simp only [found_bind]
  split
  · rename_i hbrace
    obtain rfl := beq_iff_eq.1 hbrace
    split
    · rename_i tail hcons
      obtain ⟨-, rfl⟩ := List.cons.inj hcons
      rw [inlineValue]
      cases trailingComment tail <;> rfl
    · rename_i hother
      rw [inlineValue]
      · rfl
      · exact fun tail hrest ↦ hother tail (by rw [hrest])
  split
  · rename_i hbracket
    obtain rfl := beq_iff_eq.1 hbracket
    split
    · rename_i tail hcons
      obtain ⟨-, rfl⟩ := List.cons.inj hcons
      rw [inlineValue]
      cases trailingComment tail <;> rfl
    · rename_i hother
      rw [inlineValue]
      · rfl
      · exact fun tail hrest ↦ hother tail (by rw [hrest])
  split
  · rename_i hblock
    rw [Bool.or_eq_true, beq_iff_eq, beq_iff_eq] at hblock
    rcases hblock with rfl | rfl <;> rw [inlineValue] <;> rfl
  split
  · rename_i hanchor
    rw [Bool.or_eq_true, beq_iff_eq, beq_iff_eq] at hanchor
    rcases hanchor with rfl | rfl <;> rw [inlineValue] <;> rfl
  split
  · rename_i htag
    obtain rfl := beq_iff_eq.1 htag
    rw [inlineValue]
    rfl
  · rename_i hbrace hbracket hblock hanchor htag
    rw [inlineValue]
    · cases scalar (c :: rest) with
      | error fault => rfl
      | ok read =>
        rw [ok_bind, Checked.of_ok, pure_bind]
        cases trailingComment read.rest <;> rfl
    all_goals
      intro tail hcons
      obtain ⟨rfl, -⟩ := List.cons.inj hcons
      simp at hbrace hbracket hblock hanchor htag

theorem addNode_leafKind {text : List Char} {read : Commented} (h : inlineValue text = .ok read)
    (d : Document) : d.addNode (leafKind read.1) = d.addTree read.1 := by
  rw [Document.addNode_eq, Document.addTree_eq]
  unfold inlineValue at h
  split at h
  case h_1 =>
    obtain ⟨comment, -, h⟩ := bind_eq_ok_iff.1 h
    obtain rfl := Except.ok.inj h
    rfl
  case h_3 =>
    obtain ⟨comment, -, h⟩ := bind_eq_ok_iff.1 h
    obtain rfl := Except.ok.inj h
    rfl
  case h_10 =>
    obtain ⟨found, -, h⟩ := bind_eq_ok_iff.1 h
    obtain ⟨comment, -, h⟩ := bind_eq_ok_iff.1 h
    obtain rfl := Except.ok.inj h
    rfl
  all_goals cases h

section

variable {c : Cursor} {src : Source} {indent number bound : Nat} {text : List Char}

theorem inline_agrees (hat : c.At src) (hne : text ≠ []) (hle : weight src ≤ bound) :
    Agrees (AddsValue c.document) (inline number text c)
      (onLine number (inlineValue text) >>= fun read ↦
        .ok (⟨read, src, hle⟩ : Parsed Commented bound)) := by
  rw [inline, inlineNode_eq hne]
  cases hread : inlineValue text with
  | error fault => exact rfl
  | ok read =>
    have hadd := addNode_leafKind hread c.document
    refine ⟨_, rfl, ⟨hat, ?_⟩, rfl⟩
    rw [← hadd]
    rfl

/-- The first node of an added tree is there, so that its comments can be changed. -/
theorem comment?_of_adds {d : Document} {t : Tree} {found : NodeId × Cursor}
    (h : Adds d t src found) (f : Comments → Comments) :
    ∃ c', found.2.comment? found.1 f = some c' ∧
      Adds d (t.withComments (f t.comments)) src (found.1, c') := by
  obtain ⟨id, c⟩ := found
  obtain ⟨hat, hadd⟩ := h
  obtain ⟨hdocument, hid⟩ := Prod.mk.inj hadd
  dsimp only at hdocument hid hat
  have hlt : id.index < c.document.nodes.size := by
    have hpos := t.size_pos
    change c.document = (d.addTree t).1 at hdocument
    rw [hdocument, hid, Document.size_addTree]
    dsimp only
    omega
  refine ⟨_, if_pos hlt, hat, ?_⟩
  have hmodify := Document.modify_addTree d t f
  change (c.document.modify id _, id) = d.addTree (t.withComments (f t.comments))
  rw [hdocument, hid]
  exact Prod.ext hmodify rfl

theorem add_eq (c : Cursor) (kind : NodeKind) :
    c.add kind =
      (⟨c.document.nodes.size⟩, { c with document := c.document.extend [⟨kind, {}⟩] }) := by
  rw [add, Document.addNode_eq]

end

/-! ## The blocks -/

/-- Behind the dash of an item stand spaces and then what the item holds. -/
theorem exists_of_itemBody? {text body : List Char} (h : itemBody? text = some body) :
    ∃ raw, cut? 1 text = some (['-'], raw) ∧ raw.dropWhile (· == ' ') = body ∧
      1 + (byteLength raw - byteLength body) = text.length - body.length := by
  obtain ⟨raw, rfl, rfl⟩ : ∃ raw, text = '-' :: raw ∧ raw.dropWhile (· == ' ') = body := by
    unfold itemBody? at h
    split at h
    · exact ⟨[], rfl, Option.some.inj h⟩
    · exact ⟨_, rfl, Option.some.inj h⟩
    · cases h
  refine ⟨raw, cut?_append ['-'] raw, rfl, ?_⟩
  have happend := List.takeWhile_append_dropWhile (p := (· == ' ')) (l := raw)
  have hspaces : byteLength (raw.takeWhile (· == ' ')) = (raw.takeWhile (· == ' ')).length :=
    byteLength_of_forall fun c hc ↦ by
      have hspace := List.mem_takeWhile_imp (p := (· == ' ')) hc
      rw [beq_iff_eq.1 hspace]
      rfl
  have hbytes := congrArg byteLength happend
  have hlength := congrArg List.length happend
  rw [byteLength_append] at hbytes
  rw [List.length_append] at hlength
  rw [List.length_cons]
  omega

section

variable {indent number : Nat} {c : Cursor} {src : Source}

/-- An entry whose key was put before its value. -/
theorem entry_added {d : Document} {map : NodeId} {text : String} {style : ScalarStyle}
    {read : Commented} {found : (NodeId × Option String) × Cursor}
    (head : List String) (hmap : map.index < d.nodes.size)
    (h : AddsValue (d.extend [⟨.scalar text style, {}⟩]) read src found) :
    ∃ c, found.2.comment? ⟨d.nodes.size⟩ (fun comments ↦
        { comments with head, line := found.1.2 }) = some c ∧
      (c.appendEntry map ⟨d.nodes.size⟩ found.1.1).At src ∧
      map.index < (c.appendEntry map ⟨d.nodes.size⟩ found.1.1).document.nodes.size ∧
      (c.appendEntry map ⟨d.nodes.size⟩ found.1.1).document =
        (d.modify map (Document.addEntries [(⟨d.nodes.size⟩, ⟨d.nodes.size + 1⟩)])).extend
          (⟨.scalar text style, ⟨head, read.2, []⟩⟩ ::
            Document.layout (d.nodes.size + 1) read.1) := by
  obtain ⟨⟨id, line⟩, c⟩ := found
  obtain ⟨⟨hat, hadd⟩, hline⟩ := h
  rw [Document.addTree_eq, Document.extend_extend, Document.size_extend] at hadd
  obtain ⟨hdocument, hid⟩ := Prod.mk.inj hadd
  dsimp only at hdocument hid hat hline ⊢
  subst hline hid
  have hlt : d.nodes.size < c.document.nodes.size := by
    rw [hdocument, Document.size_extend, List.length_append, List.length_singleton]
    omega
  refine ⟨_, if_pos hlt, hat, ?_, ?_⟩
  · rw [appendEntry, Document.appendEntry, Document.size_modify, Document.size_modify]
    exact Nat.lt_trans hmap hlt
  · change (c.document.modify _ _).modify map (Document.addEntries [_]) = _
    rw [hdocument, List.singleton_append, Document.modify_extend_new, Document.modify_extend hmap]
    rfl

/-- A mapping that was put before its entries. -/
theorem adds_mapping {d : Document} {entries : List (Tree × Tree)}
    (h : AddsEntries (d.extend [⟨.mapping [], {}⟩]) ⟨d.nodes.size⟩ entries src c) :
    Adds d (.mapping {} entries) src (⟨d.nodes.size⟩, c) := by
  refine ⟨h.1, Prod.ext ?_ rfl⟩
  dsimp only
  rw [h.2, Document.modify_extend_new, Document.extend_extend, Document.size_extend]
  rfl

/-- A sequence that was put before its items. -/
theorem adds_sequence {d : Document} {items : List Tree}
    (h : AddsItems (d.extend [⟨.sequence [], {}⟩]) ⟨d.nodes.size⟩ items src c) :
    Adds d (.sequence {} items) src (⟨d.nodes.size⟩, c) := by
  refine ⟨h.1, Prod.ext ?_ rfl⟩
  dsimp only
  rw [h.2, Document.modify_extend_new, Document.extend_extend, Document.size_extend]
  rfl

/-- An item whose nodes were put before it was appended. -/
theorem item_added {d : Document} {seq : NodeId} {tree : Tree} {found : NodeId × Cursor}
    (hseq : seq.index < d.nodes.size) (h : Adds d tree src found) :
    (found.2.appendItem seq found.1).At src ∧
      seq.index < (found.2.appendItem seq found.1).document.nodes.size ∧
      (found.2.appendItem seq found.1).document =
        (d.modify seq (Document.addItems [⟨d.nodes.size⟩])).extend
          (Document.layout d.nodes.size tree) := by
  obtain ⟨id, c⟩ := found
  obtain ⟨hat, hadd⟩ := h
  rw [Document.addTree_eq] at hadd
  obtain ⟨hdocument, rfl⟩ := Prod.mk.inj hadd
  dsimp only at hdocument hat ⊢
  have hafter : (c.appendItem seq ⟨d.nodes.size⟩).document =
      (d.modify seq (Document.addItems [⟨d.nodes.size⟩])).extend
        (Document.layout d.nodes.size tree) := by
    change c.document.modify seq (Document.addItems [_]) = _
    rw [hdocument, Document.modify_extend hseq]
  refine ⟨hat, ?_, hafter⟩
  rw [hafter, Document.size_extend, Document.size_modify]
  omega

theorem ne_nil_of_placement {text : List Char} (h : placement text = .inline) : text ≠ [] := by
  rintro rfl
  cases h

theorem inlineItem_agrees {bound : Nat} {text : List Char} (hat : c.At src) (hne : text ≠ [])
    {hle : weight src ≤ bound} :
    Agrees (Adds c.document)
      (inline number text c >>= fun found ↦ do
        let c ← found.2.comment? found.1.1 fun comments ↦ { comments with line := found.1.2 }
        return (found.1.1, c))
      (onLine number (inlineValue text) >>= fun read ↦
        .ok (⟨read.1.withLine read.2, src, hle⟩ : Parsed Tree bound)) := by
  have hread : Agrees (AddsValue c.document) (inline number text c)
      (onLine number (inlineValue text) >>= fun read ↦
        .ok (⟨read, src, hle⟩ : Parsed Commented bound)) := inline_agrees hat hne hle
  cases hinline : inlineValue text with
  | error fault =>
    rw [hinline] at hread
    rw [show inline number text c = throw _ from hread]
    exact rfl
  | ok read =>
    rw [hinline] at hread
    obtain ⟨found, hfound, hadds, hline⟩ := hread
    obtain ⟨c', hcomment, hadds'⟩ :=
      comment?_of_adds hadds fun comments ↦ { comments with line := found.1.2 }
    rw [hline] at hcomment hadds'
    rw [hfound, pure_bind, hline, hcomment]
    exact ⟨_, rfl, hadds'⟩

theorem nested_of_none (depth : Nat) (hat : c.At src) (hnext : next? src = none) :
    nested (depth + 1) indent c = pure (c.add (.scalar "" .plain)) := by
  rw [nested, peek?_eq hat, hnext]
  rfl

theorem lt_size_extend (d : Document) (node : Node) :
    d.nodes.size < (d.extend [node]).nodes.size := by
  rw [Document.size_extend]
  exact Nat.lt_succ_self _

end

/-! Each part needs a depth of four times the weight of the lines it reads, and one more for each
part that it calls on the same lines. -/

mutual

theorem mapping_agrees {depth indent : Nat} {c : Cursor} {src : Source} (hat : c.At src)
    (hdepth : 4 * weight src + 2 ≤ depth) :
    Agrees (fun found ↦ Adds c.document (.mapping {} found)) (mapping depth indent c)
      (entries indent src) := by
  cases depth with
  | zero => omega
  | succ depth =>
    let node : Node := ⟨.mapping [], {}⟩
    have hat' : At { c with document := c.document.extend [node] } src := hat
    rw [mapping, add_eq]
    exact (pairs_agrees hat' (lt_size_extend c.document node) (by omega)).found
      fun parsed found h ↦ adds_mapping h

theorem pairs_agrees {depth indent : Nat} {map : NodeId} {c : Cursor} {src : Source}
    (hat : c.At src) (hmap : map.index < c.document.nodes.size)
    (hdepth : 4 * weight src + 1 ≤ depth) :
    Agrees (AddsEntries c.document map) (pairs depth indent map c) (entries indent src) := by
  have hnothing : AddsEntries c.document map [] src c := by
    refine ⟨hat, ?_⟩
    rw [Document.entryIds, Document.addEntries_nil, Document.modify_id]
    exact (Document.extend_nil _).symm
  cases depth with
  | zero => omega
  | succ depth =>
    rw [pairs, peek?_eq hat, found_bind]
    cases hnext : next? src with
    | none =>
      rw [entries_of_none hnext]
      exact ⟨c, rfl, hnothing⟩
    | some step =>
      have hlt := weight_of_next? hnext
      obtain ⟨position, position', htake, hline, hat', -⟩ := take_of_next? hat hnext
      rw [entries_of_next? hnext, Option.map_some, htake]
      dsimp only
      rw [hline]
      split
      · exact ⟨c, rfl, hnothing⟩
      split
      · exact rfl
      split
      · exact rfl
      rw [found_bind, splitKeyAt_eq]
      refine matches_placed _ fun found hfound ↦ ?_
      cases found with
      | none => exact rfl
      | some key =>
        -- The key stands before its value in the table, but gets its comments behind it.
        dsimp only
        rw [add_eq]
        dsimp only
        let node : Node := ⟨.scalar (String.ofList key.text) key.style, {}⟩
        have hat'' : At { c with position := position', document := c.document.extend [node] }
          step.rest := hat'
        refine (value_agrees hat'' (by omega)).bind fun first found hfirst ↦ ?_
        have hle := first.le
        obtain ⟨c', hcomment, hafter, hmap', hdocument⟩ := entry_added step.comments hmap hfirst
        rw [hcomment, found_bind]
        refine (pairs_agrees hafter hmap' (by omega)).map fun more last hmore ↦
          ⟨_, rfl, hmore.1, ?_⟩
        rw [hmore.2, hdocument]
        exact Document.extend_entries hmap _ _ _ _ _

theorem value_agrees {depth indent number : Nat} {text : List Char} {c : Cursor} {src : Source}
    (hat : c.At src) (hdepth : 4 * weight src + 4 ≤ depth) :
    Agrees (AddsValue c.document) (value depth indent text number c)
      (Reader.value indent (trimStart text) number src) := by
  cases depth with
  | zero => omega
  | succ depth =>
    rw [value, Reader.value]
    cases hplace : placement (trimStart text) with
    | inline => exact inline_agrees hat (ne_nil_of_placement hplace) _
    | below line =>
      dsimp only
      rw [peek?_eq hat, found_bind]
      cases hnext : next? src with
      | none =>
        obtain ⟨depth, rfl⟩ : ∃ below, depth = below + 1 := ⟨depth - 1, by omega⟩
        rw [Option.map_none]
        dsimp only
        rw [nested_of_none depth hat hnext]
        exact ⟨_, rfl, ⟨hat, rfl⟩, rfl⟩
      | some step =>
        rw [Option.map_some]
        dsimp only
        split
        · exact (sequence_agrees hat (by omega)).bind fun parsed found h ↦ ⟨_, rfl, h, rfl⟩
        · exact (nested_agrees hat (by omega)).bind fun parsed found h ↦ ⟨_, rfl, h, rfl⟩

theorem nested_agrees {depth indent : Nat} {c : Cursor} {src : Source} (hat : c.At src)
    (hdepth : 4 * weight src + 3 ≤ depth) :
    Agrees (Adds c.document) (nested depth indent c) (Reader.nested indent src) := by
  cases depth with
  | zero => omega
  | succ depth =>
    rw [nested, Reader.nested, peek?_eq hat, found_bind]
    cases hnext : next? src with
    | none => exact ⟨_, rfl, hat, rfl⟩
    | some step =>
      rw [Option.map_some]
      dsimp only
      by_cases hle : step.indent ≤ indent
      · rw [if_pos hle, if_neg (Nat.not_lt_of_le hle)]
        exact ⟨_, rfl, hat, rfl⟩
      · rw [if_neg hle, if_pos (Nat.lt_of_not_le hle)]
        split
        · exact (sequence_agrees hat (by omega)).map fun parsed found h ↦ ⟨_, rfl, h⟩
        · exact (mapping_agrees hat (by omega)).map fun parsed found h ↦ ⟨_, rfl, h⟩

theorem sequence_agrees {depth indent : Nat} {c : Cursor} {src : Source} (hat : c.At src)
    (hdepth : 4 * weight src + 2 ≤ depth) :
    Agrees (fun found ↦ Adds c.document (.sequence {} found)) (sequence depth indent c)
      (items indent src) := by
  cases depth with
  | zero => omega
  | succ depth =>
    let node : Node := ⟨.sequence [], {}⟩
    have hat' : At { c with document := c.document.extend [node] } src := hat
    rw [sequence, add_eq]
    exact (elements_agrees hat' (lt_size_extend c.document node) (by omega)).found
      fun parsed found h ↦ adds_sequence h

theorem elements_agrees {depth indent : Nat} {seq : NodeId} {c : Cursor} {src : Source}
    (hat : c.At src) (hseq : seq.index < c.document.nodes.size)
    (hdepth : 4 * weight src + 1 ≤ depth) :
    Agrees (AddsItems c.document seq) (elements depth indent seq c) (items indent src) := by
  have hnothing : AddsItems c.document seq [] src c := by
    refine ⟨hat, ?_⟩
    rw [Document.itemIds, Document.addItems_nil, Document.modify_id]
    exact (Document.extend_nil _).symm
  cases depth with
  | zero => omega
  | succ depth =>
    rw [elements, peek?_eq hat, found_bind]
    cases hnext : next? src with
    | none =>
      rw [items_of_none hnext]
      exact ⟨c, rfl, hnothing⟩
    | some step =>
      have hlt := weight_of_next? hnext
      rw [Option.map_some]
      dsimp only
      cases hbody : itemBody? step.text with
      | none =>
        rw [items_of_no_dash hnext hbody, isItem, hbody]
        simp only [Option.isSome_none, Bool.not_false, Bool.and_true, Bool.or_eq_true,
          decide_eq_true_eq]
        rcases Nat.lt_trichotomy step.indent indent with hless | heq | hgreater
        · rw [if_pos (Or.inl hless), if_pos hless]
          exact ⟨c, rfl, hnothing⟩
        · rw [if_pos (Or.inr heq), if_neg (by omega), if_neg (by omega)]
          exact ⟨c, rfl, hnothing⟩
        · rw [if_neg (by omega), if_pos hgreater, if_neg (by omega), if_pos hgreater]
          exact rfl
      | some body =>
        obtain ⟨raw, hcut, hraw, hcolumn⟩ := exists_of_itemBody? hbody
        obtain ⟨position, position', htake, hline, hat', hpos⟩ := take_of_next? hat hnext
        rw [items_of_dash hnext hbody, isItem, hbody, htake]
        dsimp only
        rw [hline]
        simp only [Option.isSome_some, Bool.not_true, Bool.and_false, Bool.or_false,
          decide_eq_true_eq]
        split
        · exact ⟨c, rfl, hnothing⟩
        split
        · exact rfl
        rw [found_bind]
        dsimp only
        rw [hcut, found_bind]
        refine (element_agrees hat' hpos hraw hcolumn (by omega)).bind
          fun first found hfirst ↦ ?_
        have hle := first.le
        obtain ⟨c', hcomment, hadds⟩ :=
          comment?_of_adds hfirst fun comments ↦ { comments with head := step.comments }
        rw [hcomment, found_bind]
        obtain ⟨hafter, hseq', hdocument⟩ := item_added hseq hadds
        refine (elements_agrees hafter hseq' (by omega)).map fun more last hmore ↦
          ⟨_, rfl, hmore.1, ?_⟩
        rw [hmore.2, hdocument]
        exact Document.extend_items hseq _ _

theorem element_agrees {depth indent : Nat} {step : Reader.Step} {body raw : List Char}
    {c : Cursor} {h : body.length < step.text.length} (hat : c.At step.rest)
    (hpos : 0 < c.position) (hraw : raw.dropWhile (· == ' ') = body)
    (hcolumn : 1 + (byteLength raw - byteLength body) = step.text.length - body.length)
    (hdepth : 4 * (weight step.rest + 2 * step.text.length) + 1 ≤ depth) :
    Agrees (Adds c.document) (element depth indent step.number raw c)
      (item indent step body h) := by
  cases depth with
  | zero => omega
  | succ depth =>
    rw [element, item, hraw, itemStart]
    cases hplace : placement body with
    | below line =>
      refine (nested_agrees hat (by omega)).bind fun parsed found hfound ↦ ?_
      obtain ⟨c', hcomment, hadds⟩ :=
        comment?_of_adds hfound fun comments ↦ { comments with line }
      dsimp only
      rw [hcomment]
      exact ⟨_, rfl, hadds⟩
    | inline =>
      dsimp only
      cases hitem : isItem body with
      | true => exact rfl
      | false =>
        rw [splitKeyAt_eq]
        cases hkey : splitKey body with
        | error fault => exact rfl
        | ok key =>
          cases key with
          | none =>
            have hread : Agrees (Adds c.document) _
                (onLine step.number (inlineValue body) >>= fun read ↦
                  .ok (⟨read.1.withLine read.2, step.rest, by omega⟩ :
                    Parsed Tree (weight step.rest + 2 * step.text.length))) :=
              inlineItem_agrees hat (ne_nil_of_placement hplace)
            cases hinline : inlineValue body with
            | error fault =>
              rw [hinline] at hread
              exact hread
            | ok read =>
              rw [hinline] at hread
              exact hread
          | some key =>
            -- The line that was put back has no dash and starts at the column of the key.
            let column := indent + (step.text.length - body.length)
            obtain ⟨c', hput, hat', hdocument⟩ :=
              putBack?_eq hat hpos (step.number, .content column body)
            have hindent : indent + 1 + (byteLength raw - byteLength body) = column := by
              dsimp only [column]
              omega
            have hdepth' :
                4 * weight ((step.number, .content column body) :: step.rest) + 2 ≤ depth := by
              simp only [weight, lineWeight]
              omega
            rw [hindent, hput, ← hdocument]
            exact (mapping_agrees hat' hdepth').map fun parsed found h ↦ ⟨_, rfl, h⟩

end

/-! ## Files -/

section

variable {c : Cursor} {src : Source} {step : Reader.Step}

theorem emptyRoot_matches (hat : c.At src) (hnext : next? src = some step)
    {rest : List Char} (htext : step.text = '\x7b' :: rest) :
    Matches (fun read ↦ Adds c.document (read.1.withComments ⟨step.comments, read.2, []⟩) step.rest)
      c.emptyRoot (onLine step.number (inlineValue step.text)) := by
  obtain ⟨position, position', htake, hline, hat', -⟩ := take_of_next? hat hnext
  rw [emptyRoot, htake]
  dsimp only
  rw [hline, found_bind, htext]
  dsimp only
  split
  · rename_i tail hcons
    obtain ⟨-, rfl⟩ := List.cons.inj hcons
    rw [inlineValue]
    cases trailingComment tail with
    | error fault => exact rfl
    | ok comment =>
      have hadds : Adds c.document (.mapping {} []) step.rest
          (({ c with position := position' } : Cursor).add (.mapping [])) := ⟨hat', rfl⟩
      obtain ⟨c', hcomment, hadds'⟩ := comment?_of_adds hadds fun comments ↦
        { comments with head := step.comments, line := comment }
      rw [Checked.of_ok]
      refine ⟨_, ?_, hadds'⟩
      change (liftM (Cursor.comment? _ _ _) : Outcome Cursor) >>= _ = _
      rw [hcomment]
      rfl
  · rename_i hother
    have hflow : inlineValue ('\x7b' :: rest) = .error .flowMapping := by
      rw [inlineValue]
      exact fun tail h ↦ hother tail (by rw [h])
    rw [hflow]
    exact rfl

theorem root_matches {depth : Nat} (hat : c.At src) (hnext : next? src = some step)
    (hdepth : 4 * weight src + 2 ≤ depth) :
    Matches (fun read found ↦ Adds c.document read.1 read.2 found ∧ read.1.comments.foot = [])
      (root depth c) (Reader.root step src) := by
  rw [root, peek?_eq hat, hnext, found_bind, Reader.root]
  dsimp only [Option.map_some]
  cases hitem : isItem step.text with
  | true => exact rfl
  | false =>
    rw [if_neg Bool.false_ne_true, if_neg Bool.false_ne_true]
    split
    · rename_i hhead
      obtain ⟨rest, htext⟩ := List.head?_eq_some_iff.1 hhead
      have hempty := emptyRoot_matches hat hnext htext
      rw [htext] at hempty ⊢
      exact hempty.map fun read found h ↦ ⟨_, rfl, h, by cases read.1 <;> rfl⟩
    · rename_i hhead
      split
      · rename_i rest htext
        exact absurd (by rw [htext]; rfl) hhead
      · exact (mapping_agrees hat hdepth).map fun parsed found h ↦ ⟨_, rfl, h, rfl⟩

theorem peek?_afterComments {position : Nat}
    (h : ({ c with position } : Cursor).At (afterComments src)) :
    peek? { c with position } =
      some ((next? src).map fun step ↦ (step.number, step.indent, step.text)) := by
  rw [peek?, if_pos h.1, h.2, firstContent?_afterComments, firstContent?_eq]

/-- The comments behind the root become its foot, unless content follows. -/
theorem read_of_root {depth : Nat} {id : NodeId} {rest : Source} {c' : Cursor} {tree : Tree}
    (hroot : root depth c = pure (id, c')) (hadds : Adds c.document tree rest (id, c'))
    (hfoot : tree.comments.foot = []) :
    read depth c = Checked.of (match next? rest with
      | some step => .error ⟨step.number, .unexpectedIndentation⟩
      | none =>
        let (d, root) := c.document.addTree (tree.withFoot (leadingComments rest))
        .ok { d with root }) := by
  obtain ⟨position, htake, hat⟩ := takeComments_eq hadds.1
  rw [read, hroot, pure_bind]
  dsimp only at htake ⊢
  rw [htake]
  dsimp only
  rw [peek?_afterComments hat, found_bind]
  cases hnext : next? rest with
  | some step => rfl
  | none =>
    have hafter : Adds c.document tree (afterComments rest) (id, { c' with position }) :=
      ⟨hat, hadds.2⟩
    obtain ⟨c'', hcomment, -, hdocument⟩ := comment?_of_adds hafter fun comments ↦
      { comments with foot := comments.foot ++ leadingComments rest }
    rw [hfoot, List.nil_append] at hdocument
    dsimp only [Option.map_none]
    rw [hcomment]
    have hfound : c.document.addTree (tree.withFoot (leadingComments rest)) = (c''.document, id) :=
      hdocument.symm
    rw [hfound]
    rfl

theorem read_of_none (depth : Nat) (hat : c.At src) (hnext : next? src = none)
    (hempty : c.document = .empty) :
    read depth c = pure (Document.empty.modify Document.empty.root fun node ↦
      { node with comments.foot := leadingComments src }) := by
  obtain ⟨position, htake, hat'⟩ := takeComments_eq hat
  rw [read, root, peek?_eq hat, hnext]
  dsimp only [Option.map_none]
  rw [found_bind, pure_bind]
  dsimp only
  rw [htake]
  dsimp only
  rw [peek?_afterComments hat', hnext]
  dsimp only [Option.map_none]
  rw [found_bind, hempty]
  rfl

/-- Deep enough, reading with a cursor comes to what it comes to without positions. -/
theorem exists_depth (text : String) :
    ∃ depth, ∀ deeper, depth ≤ deeper → parse deeper text = Checked.of (Document.parse text) := by
  simp only [parse, Document.parse, Reader.read]
  cases sourceOf 1 (Text.lines text.toList) with
  | error e => exact ⟨0, fun _ _ ↦ rfl⟩
  | ok src =>
    refine ⟨4 * weight src + 2, fun deeper hdeeper ↦ ?_⟩
    have hat : At ⟨src.toArray, 0, .empty⟩ src := ⟨Nat.zero_le _, rfl⟩
    rw [Checked.of_ok, pure_bind, ok_bind]
    cases hnext : next? src with
    | none =>
      rw [read_of_none deeper hat hnext rfl]
      rfl
    | some step =>
      have hmatches := root_matches hat hnext hdeeper
      dsimp only
      cases hroot : Reader.root step src with
      | error e =>
        rw [hroot] at hmatches
        rw [read, show root _ _ = throw e from hmatches]
        rfl
      | ok parsed =>
        rw [hroot] at hmatches
        obtain ⟨⟨id, c'⟩, hfound, hadds, hfoot⟩ := hmatches
        rw [read_of_root hfound hadds hfoot, ok_bind]
        dsimp only
        cases next? parsed.2 with
        | none => rfl
        | some step => rfl

end

/-- Reading ends for every text, without a look behind the end of a table and without a cut within a
character. When it fails, it points at a line of the text that holds more than white space or a
comment. -/
theorem parse_total (text : String) :
    (∃ depth, ∀ deeper, depth ≤ deeper →
      parse deeper text = Checked.of (Document.parse text)) ∧
    ∀ e, Document.parse text = .error e →
      1 ≤ e.line ∧ e.line ≤ (Text.lines text.toList).length ∧
        ∃ raw, (Text.lines text.toList)[e.line - 1]? = some raw ∧ ¬ Line.Idle raw := by
  refine ⟨exists_depth text, fun e herror ↦ ?_⟩
  have hread : Reader.read text.toList = .error e := by
    rw [Document.parse] at herror
    cases hread : Reader.read text.toList with
    | error e' =>
      rw [hread] at herror
      rw [Except.error.inj herror]
    | ok content =>
      rw [hread, ok_bind] at herror
      split at herror <;> cases herror
  obtain ⟨hpos, raw, hraw, hidle⟩ := Reader.holdsContent_of_read hread
  obtain ⟨hlt, -⟩ := List.getElem?_eq_some_iff.1 hraw
  exact ⟨hpos, by omega, raw, hraw, hidle⟩

/-- The third line is too deep, and the comment before it is passed over. -/
theorem parse_total_indented :
    Document.parse "a: 1\n# x\n  b: 2\n" = .error ⟨3, .unexpectedIndentation⟩ ∧
      ∃ raw, (Text.lines "a: 1\n# x\n  b: 2\n".toList)[2]? = some raw ∧ ¬ Line.Idle raw := by
  have herror : Document.parse "a: 1\n# x\n  b: 2\n" = .error ⟨3, .unexpectedIndentation⟩ := by
    cbv
  exact ⟨herror, ((parse_total _).2 _ herror).2.2⟩

end Cursor

end LayeredConfig
