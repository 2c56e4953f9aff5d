import Mathlib
import LayeredConfig.Proofs.Document.Inline
import LayeredConfig.Proofs.Text.Bytes

/-!
# Scalars by position

The reader of one line may also be written with offsets: it looks at one byte after the other, it
notes where a scalar ends, and it cuts the line there. It comes to the same, and it never looks
behind the end of a line and never cuts one within a character.
-/

namespace LayeredConfig

/-- An outcome, unless something was looked for where nothing is. -/
abbrev Checked (ε α : Type) := ExceptT ε Option α

namespace Checked

variable {ε α β : Type}

/-- An outcome for which everything was found. -/
def of (result : Except ε α) : Checked ε α :=
  ExceptT.mk (some result)

/-- What was looked for is not there. -/
def missing : Checked ε α :=
  ExceptT.mk none

theorem of_ok (a : α) : (of (.ok a) : Checked ε α) = pure a := rfl

theorem of_bind (result : Except ε α) (next : α → Except ε β) :
    of (result >>= next) = of result >>= fun a ↦ of (next a) := by
  cases result <;> rfl

end Checked

namespace Inline

open Text

/-! ## Scalars -/

/-- The text up to the closing quote, and the offset behind it. -/
def doubleQuotedEnd (offset : Nat) : List Char → Except SyntaxFault (List Char × Nat)
  | [] => .error .unterminatedDoubleQuoted
  | '"' :: _ => .ok ([], offset + 1)
  | ['\\'] => .error .unterminatedDoubleQuoted
  | '\\' :: kind :: rest =>
    match simpleEscape? kind, escapeWidth? kind with
    | some c, _ => do
      let (text, stop) ← doubleQuotedEnd (offset + 1 + kind.utf8Size) rest
      return (c :: text, stop)
    | none, some count => do
      let c ← hexEscape count rest
      let skipped := byteLength (rest.take count)
      let (text, stop) ← doubleQuotedEnd (offset + 1 + kind.utf8Size + skipped) (rest.drop count)
      return (c :: text, stop)
    | none, none => .error (.invalidEscape ['\\', kind])
  | c :: rest => do
    let (text, stop) ← doubleQuotedEnd (offset + c.utf8Size) rest
    return (c :: text, stop)
termination_by text => text.length

/-- The text up to the closing quote, and the offset behind it. -/
def singleQuotedEnd (offset : Nat) : List Char → Except SyntaxFault (List Char × Nat)
  | [] => .error .unterminatedSingleQuoted
  | '\'' :: '\'' :: rest => do
    let (text, stop) ← singleQuotedEnd (offset + 2) rest
    return ('\'' :: text, stop)
  | '\'' :: _ => .ok ([], offset + 1)
  | c :: rest => do
    let (text, stop) ← singleQuotedEnd (offset + c.utf8Size) rest
    return (c :: text, stop)

/-- The offset of the first space that a number sign follows. -/
def commentOffset? (offset : Nat) : List Char → Option Nat
  | [] => none
  | ' ' :: '#' :: _ => some offset
  | c :: rest => commentOffset? (offset + c.utf8Size) rest

/-- The scalar at the start of a text, which is cut at an offset. -/
def scalarAt (text : List Char) : Checked SyntaxFault Scalar :=
  match text with
  | '"' :: inner => do
    let (value, stop) ← Checked.of (doubleQuotedEnd 1 inner)
    let (_, rest) ← cut? stop text
    return ⟨value, .doubleQuoted, rest⟩
  | '\'' :: inner => do
    let (value, stop) ← Checked.of (singleQuotedEnd 1 inner)
    let (_, rest) ← cut? stop text
    return ⟨value, .singleQuoted, rest⟩
  | _ =>
    match commentOffset? 0 text with
    | none => return ⟨text, .plain, []⟩
    | some stop => do
      let (value, rest) ← cut? stop text
      return ⟨trimEnd value, .plain, rest⟩

/-- The offset where what is left of a text begins. -/
def endOffset (offset : Nat) (text : List Char) (found : List Char × List Char) :
    List Char × Nat :=
  (found.1, offset + byteLength text - byteLength found.2)

theorem bind_map_endOffset (read : Except SyntaxFault (List Char × List Char)) (c : Char)
    {offset offset' : Nat} {text text' : List Char}
    (h : offset + byteLength text = offset' + byteLength text') :
    (do
      let (text, stop) ← read.map (endOffset offset text)
      return (c :: text, stop)) =
    (do
      let (text, tail) ← read
      return (c :: text, tail) : Except SyntaxFault _).map (endOffset offset' text') := by
  cases read with
  | error fault => rfl
  | ok found =>
    change Except.ok (c :: found.1, _) = Except.ok (c :: found.1, _)
    rw [h]

theorem doubleQuotedEnd_eq (offset : Nat) (text : List Char) :
    doubleQuotedEnd offset text = (doubleQuoted text).map (endOffset offset text) := by
  fun_induction doubleQuoted text generalizing offset with
  | case1 =>
    rw [doubleQuotedEnd]
    rfl
  | case2 inner =>
    have hstop : offset + byteLength ('"' :: inner) - byteLength inner = offset + 1 := by
      rw [byteLength_cons]
      have hsize : '"'.utf8Size = 1 := rfl
      omega
    rw [doubleQuotedEnd, Except.map, endOffset, hstop]
  | case3 =>
    rw [doubleQuotedEnd]
    rfl
  | case4 kind inner c hsimple ih =>
    rw [doubleQuotedEnd, hsimple, ih]
    apply bind_map_endOffset
    rw [byteLength_cons, byteLength_cons]
    have hsize : '\\'.utf8Size = 1 := rfl
    omega
  | case5 kind inner count hcount hsimple ih =>
    rw [doubleQuotedEnd, hsimple, hcount]
    dsimp only
    cases hexEscape count inner with
    | error fault => rfl
    | ok c =>
      rw [ok_bind, ok_bind, ih]
      apply bind_map_endOffset
      have hparts : byteLength (inner.take count) + byteLength (inner.drop count) =
          byteLength inner := by
        rw [← byteLength_append, List.take_append_drop]
      rw [byteLength_cons, byteLength_cons]
      have hsize : '\\'.utf8Size = 1 := rfl
      omega
  | case6 kind inner hsimple hcount =>
    rw [doubleQuotedEnd, hsimple, hcount]
    rfl
  | case7 c inner hquote hlast hescape ih =>
    rw [doubleQuotedEnd, ih]
    · apply bind_map_endOffset
      rw [byteLength_cons]
      omega
    · exact hquote
    · exact hlast
    · exact hescape

theorem singleQuotedEnd_eq (offset : Nat) (text : List Char) :
    singleQuotedEnd offset text = (singleQuoted text).map (endOffset offset text) := by
  have hsize : '\''.utf8Size = 1 := rfl
  fun_induction singleQuoted text generalizing offset with
  | case1 => rfl
  | case2 inner ih =>
    rw [singleQuotedEnd, ih]
    apply bind_map_endOffset
    rw [byteLength_cons, byteLength_cons]
    omega
  | case3 inner hone =>
    have hstop : offset + byteLength ('\'' :: inner) - byteLength inner = offset + 1 := by
      rw [byteLength_cons]
      omega
    rw [singleQuotedEnd, Except.map, endOffset, hstop]
    exact hone
  | case4 c inner htwo hone ih =>
    rw [singleQuotedEnd, ih]
    · apply bind_map_endOffset
      rw [byteLength_cons]
      omega
    · exact htwo
    · exact hone

theorem commentOffset?_eq (offset : Nat) (text : List Char) :
    commentOffset? offset text =
      if (splitComment text).2 = [] then none
      else some (offset + byteLength (splitComment text).1) := by
  fun_induction splitComment text generalizing offset with
  | case1 => rfl
  | case2 rest => rfl
  | case3 c rest hmark text tail hsplit ih =>
    rw [commentOffset?, ih, hsplit]
    · dsimp only
      rw [byteLength_cons, Nat.add_assoc]
    · exact hmark

theorem append_of_splitComment (text : List Char) :
    (splitComment text).1 ++ (splitComment text).2 = text := by
  fun_induction splitComment text with
  | case1 => rfl
  | case2 rest => rfl
  | case3 c rest hmark text tail hsplit ih =>
    rw [hsplit] at ih
    rw [List.cons_append, ih]

/-- Where a quoted text ends the line can be cut. -/
theorem cut?_endOffset (quote : Char) {inner : List Char} {found : List Char × List Char}
    (hquote : quote.utf8Size = 1) (h : found.2 <:+ inner) :
    ∃ front, cut? (endOffset 1 inner found).2 (quote :: inner) = some (front, found.2) := by
  obtain ⟨front, rfl⟩ := h
  refine ⟨quote :: front, ?_⟩
  have hstop : (endOffset 1 (front ++ found.2) found).2 = byteLength (quote :: front) := by
    rw [endOffset, byteLength_append, byteLength_cons, hquote]
    omega
  rw [hstop]
  exact cut?_append (quote :: front) found.2

theorem scalarAt_eq (text : List Char) : scalarAt text = Checked.of (scalar text) := by
  unfold scalarAt
  split
  · rename_i inner
    rw [doubleQuotedEnd_eq]
    simp only [scalar]
    cases hread : doubleQuoted inner with
    | error fault => rfl
    | ok found =>
      obtain ⟨front, hcut⟩ := cut?_endOffset '"' rfl (doubleQuoted_suffix hread)
      change (do
        let (_, rest) ← cut? (endOffset 1 inner found).2 ('"' :: inner)
        return ⟨found.1, .doubleQuoted, rest⟩ : Checked SyntaxFault Scalar) = _
      rw [hcut]
      rfl
  · rename_i inner
    rw [singleQuotedEnd_eq]
    simp only [scalar]
    cases hread : singleQuoted inner with
    | error fault => rfl
    | ok found =>
      obtain ⟨front, hcut⟩ := cut?_endOffset '\'' rfl (singleQuoted_suffix hread)
      change (do
        let (_, rest) ← cut? (endOffset 1 inner found).2 ('\'' :: inner)
        return ⟨found.1, .singleQuoted, rest⟩ : Checked SyntaxFault Scalar) = _
      rw [hcut]
      rfl
  · rename_i hdouble hsingle
    rw [commentOffset?_eq, scalar]
    · have hparts := append_of_splitComment text
      generalize splitComment text = parts at hparts
      obtain ⟨value, rest⟩ := parts
      cases rest with
      | nil => rfl
      | cons c rest =>
        have hcut : cut? (0 + byteLength value) text = some (value, c :: rest) := by
          rw [← hparts, Nat.zero_add]
          exact cut?_append value (c :: rest)
        rw [if_neg (List.cons_ne_nil c rest)]
        dsimp only
        rw [hcut]
        rfl
    · exact hdouble
    · exact hsingle

/-! ## Keys -/

/-- Whether a comment starts at an offset, which the byte before it tells. -/
def commentAt? (text : List Char) (offset : Nat) : Option Bool := do
  if ← isAt? text offset '#' then
    if 0 < offset then isAt? text (offset - 1) ' ' else return false
  else return false

/-- Whether a colon at an offset separates a key from its value, which the byte behind it tells. -/
def separatorAt? (text : List Char) (offset : Nat) : Option Bool := do
  if ← isAt? text offset ':' then
    if offset + 1 = byteLength text then return true else isAt? text (offset + 1) ' '
  else return false

/-- Looks for the separating colon byte by byte and cuts the text around it. -/
def splitPlainKeyFrom (text : List Char) (offset : Nat) :
    Option (Option (List Char × List Char)) :=
  if offset < byteLength text then do
    if ← commentAt? text offset then return none
    else if ← separatorAt? text offset then
      let (before, _) ← cut? offset text
      match trimEnd before with
      | [] => return none
      | key =>
        let (_, rest) ← cut? (offset + 1) text
        return some (key, rest)
    else splitPlainKeyFrom text (offset + 1)
  else return none
termination_by byteLength text - offset

/-- The key of a line and what follows the colon. -/
def splitKeyAt (text : List Char) : Checked SyntaxFault (Option Scalar) :=
  let quoted := do
    let key ← scalarAt text
    match trimStart key.rest with
    | ':' :: rest => return if endsKey rest then some { key with rest } else none
    | _ => return none
  match text with
  | '"' :: _ => quoted
  | '\'' :: _ => quoted
  | _ => do return (← splitPlainKeyFrom text 0).map fun (key, rest) => ⟨key, .plain, rest⟩

section

variable {front rest : List Char} {c : Char}

theorem commentAt?_eq (front : List Char) (c : Char) (rest : List Char) :
    commentAt? (front ++ c :: rest) (byteLength front) =
      some (c == '#' && front.getLast? == some ' ') := by
  unfold commentAt?
  rw [isAt?_byteLength (by decide)]
  cases hmark : c == '#' with
  | false => rfl
  | true =>
    change (if 0 < byteLength front then isAt? _ (byteLength front - 1) ' ' else some false) = _
    by_cases hne : front = []
    · rw [hne]
      rfl
    · have hpos : 0 < byteLength front := by
        obtain ⟨d, front', rfl⟩ := List.exists_cons_of_ne_nil hne
        rw [byteLength_cons]
        have := d.utf8Size_pos
        omega
      rw [if_pos hpos, isAt?_last (by decide) hne, Bool.true_and]

theorem separatorAt?_eq (front : List Char) (c : Char) (rest : List Char) :
    separatorAt? (front ++ c :: rest) (byteLength front) = some (c == ':' && endsKey rest) := by
  unfold separatorAt?
  rw [isAt?_byteLength (by decide)]
  cases hcolon : c == ':' with
  | false => rfl
  | true =>
    obtain rfl := beq_iff_eq.1 hcolon
    have hsize : ':'.utf8Size = 1 := rfl
    change (if byteLength front + 1 = byteLength (front ++ ':' :: rest) then some true
      else isAt? (front ++ ':' :: rest) (byteLength front + 1) ' ') = _
    rw [byteLength_append, byteLength_cons, hsize]
    cases rest with
    | nil =>
      rw [byteLength_nil, if_pos rfl]
      rfl
    | cons d rest =>
      have hpos := d.utf8Size_pos
      have hoffset : byteLength front + 1 = byteLength (front ++ [':']) :=
        (byteLength_concat front ':').symm
      rw [byteLength_cons, if_neg (by omega), List.append_cons, hoffset,
        isAt?_byteLength (by decide)]
      rfl

/-- Within a character the search goes on. -/
theorem splitPlainKeyFrom_within {index : Nat} (hpos : 0 < index) (hlt : index < c.utf8Size) :
    splitPlainKeyFrom (front ++ c :: rest) (byteLength front + index) =
      splitPlainKeyFrom (front ++ c :: rest) (byteLength front + index + 1) := by
  have hlength : byteLength front + index < byteLength (front ++ c :: rest) := by
    rw [byteLength_append, byteLength_cons]
    omega
  rw [splitPlainKeyFrom, if_pos hlength, commentAt?, separatorAt?,
    isAt?_within (by decide) front rest hpos hlt, isAt?_within (by decide) front rest hpos hlt]
  rfl

theorem splitPlainKeyFrom_next (front : List Char) (c : Char) (rest : List Char) :
    splitPlainKeyFrom (front ++ c :: rest) (byteLength front + 1) =
      splitPlainKeyFrom (front ++ c :: rest) (byteLength front + c.utf8Size) := by
  suffices h : ∀ index, 0 < index → index ≤ c.utf8Size →
      splitPlainKeyFrom (front ++ c :: rest) (byteLength front + 1) =
        splitPlainKeyFrom (front ++ c :: rest) (byteLength front + index) from
    h _ c.utf8Size_pos (Nat.le_refl _)
  intro index hpos hle
  induction index with
  | zero => exact absurd hpos (Nat.lt_irrefl 0)
  | succ index ih =>
    by_cases hzero : index = 0
    · rw [hzero]
    · rw [ih (Nat.pos_iff_ne_zero.2 hzero) (Nat.le_of_succ_le hle),
        splitPlainKeyFrom_within (Nat.pos_iff_ne_zero.2 hzero) hle]
      rfl

end

theorem splitPlainKeyFrom_eq (front rest : List Char) :
    splitPlainKeyFrom (front ++ rest) (byteLength front) =
      some (splitPlainKey front.reverse rest) := by
  induction rest generalizing front with
  | nil =>
    rw [splitPlainKeyFrom, List.append_nil, if_neg (Nat.lt_irrefl _)]
    rfl
  | cons c rest ih =>
    have hlength : byteLength front < byteLength (front ++ c :: rest) := by
      rw [byteLength_append, byteLength_cons]
      have := c.utf8Size_pos
      omega
    have hnext : splitPlainKeyFrom (front ++ c :: rest) (byteLength front + 1) =
        some (splitPlainKey (c :: front.reverse) rest) := by
      have hrest := ih (front ++ [c])
      rw [← List.append_cons, byteLength_concat, List.reverse_append] at hrest
      rw [splitPlainKeyFrom_next, hrest]
      rfl
    have hcomment : (c == '#' && front.getLast? == some ' ') =
        (decide (c = '#') && decide (front.reverse.head? = some ' ')) := by
      rw [List.head?_reverse, Bool.eq_iff_iff]
      simp
    have hcolon : (c == ':') = decide (c = ':') := rfl
    rw [splitPlainKeyFrom, if_pos hlength, commentAt?_eq, separatorAt?_eq, splitPlainKey, hcomment,
      hcolon, List.reverse_reverse]
    cases decide (c = '#') && decide (front.reverse.head? = some ' ') with
    | true => rfl
    | false =>
      cases hseparator : decide (c = ':') && endsKey rest with
      | false => exact hnext
      | true =>
        obtain rfl : c = ':' := by simpa using (Bool.and_eq_true_iff.1 hseparator).1
        have hcut : cut? (byteLength front + 1) (front ++ ':' :: rest) =
            some (front ++ [':'], rest) := by
          rw [List.append_cons]
          exact byteLength_concat front ':' ▸ cut?_append _ _
        rw [cut?_append, hcut]
        change (match trimEnd front with
          | [] => some none
          | key => some (some (key, rest))) = _
        cases trimEnd front <;> rfl

theorem splitKeyAt_eq (text : List Char) : splitKeyAt text = Checked.of (splitKey text) := by
  have hquoted : (do
      let key ← scalarAt text
      match trimStart key.rest with
      | ':' :: rest => return if endsKey rest then some { key with rest } else none
      | _ => return none) = Checked.of (do
      let key ← scalar text
      match trimStart key.rest with
      | ':' :: rest => return if endsKey rest then some { key with rest } else none
      | _ => return none) := by
    rw [scalarAt_eq, Checked.of_bind]
    congr 1
    funext key
    split <;> rfl
  unfold splitKeyAt
  split
  · exact hquoted
  · exact hquoted
  · rename_i hdouble hsingle
    have hfrom := splitPlainKeyFrom_eq [] text
    rw [List.nil_append, byteLength_nil] at hfrom
    rw [splitKey]
    · rw [hfrom]
      rfl
    · exact hdouble
    · exact hsingle

end Inline

end LayeredConfig
