import Mathlib
import LayeredConfig.Proofs.Document.ScalarPositions
import LayeredConfig.Proofs.Document.Spelling

/-!
# What stands between double quotes

The rules of a text between double quotes are given as a grammar: characters that stand for
themselves, escapes of one character, and code points in hexadecimal digits. A reader that meets
the opening quote succeeds exactly on what the grammar derives up to the closing quote, and it ends
right behind that quote. One thing goes beyond the rules: the digits of a code point may begin with
a plus sign.
-/

namespace LayeredConfig.Inline

open Text

/-! ## The grammar -/

/-- The hexadecimal digits in the order of their values. -/
def smallDigits : List Char :=
  ['0', '1', '2', '3', '4', '5', '6', '7', '8', '9', 'a', 'b', 'c', 'd', 'e', 'f']

def capitalDigits : List Char :=
  ['0', '1', '2', '3', '4', '5', '6', '7', '8', '9', 'A', 'B', 'C', 'D', 'E', 'F']

/-- The character is the hexadecimal digit of a value, in one of its two shapes. -/
def IsHexDigit (c : Char) (value : Nat) : Prop :=
  smallDigits[value]? = some c ∨ capitalDigits[value]? = some c

/-- Hexadecimal digits that write a number, the highest one first. -/
def Denotes (digits : List Char) (code : Nat) : Prop :=
  ∃ values, List.Forall₂ IsHexDigit digits values ∧ Nat.ofDigits 16 values.reverse = code

/-- The escapes of one character and what they stand for. -/
def simpleEscapes : List (Char × Char) :=
  [('\\', '\\'), ('"', '"'), ('/', '/'), (' ', ' '), ('n', '\n'), ('t', '\t'), ('r', '\r'),
    ('0', '\x00'), ('e', '\x1b')]

/-- The escapes of a code point and how many characters follow. -/
def codedEscapes : List (Char × Nat) :=
  [('x', 2), ('u', 4), ('U', 8)]

/-- A text and what may stand for it between double quotes, if one of the signs may stand before
the digits of a code point. -/
inductive Body (signs : List (List Char)) : List Char → List Char → Prop
  | nil : Body signs [] []
  | verbatim {c : Char} {text written : List Char} (hquote : c ≠ '"') (hbackslash : c ≠ '\\')
      (h : Body signs text written) : Body signs (c :: text) (c :: written)
  | simple {kind c : Char} {text written : List Char} (hkind : (kind, c) ∈ simpleEscapes)
      (h : Body signs text written) : Body signs (c :: text) ('\\' :: kind :: written)
  | coded {kind c : Char} {sign digits text written : List Char} (hsign : sign ∈ signs)
      (hkind : (kind, (sign ++ digits).length) ∈ codedEscapes) (hdigits : Denotes digits c.toNat)
      (h : Body signs text written) :
      Body signs (c :: text) ('\\' :: kind :: (sign ++ digits ++ written))

/-- The rules as they are meant. -/
def unsigned : List (List Char) := [[]]

/-- The rules as they are kept: a plus sign is passed over. -/
def optionalPlus : List (List Char) := [[], ['+']]

section

variable {c kind : Char} {value count code total : Nat} {digits text written rest tail : List Char}

/-! ## Digits -/

/-- A table that lists the digits in the order of their values is read digit by digit. -/
theorem hexValue?_of_table {table : List Char}
    (htable : table.map hexValue? = (List.range 16).map some) (h : table[value]? = some c) :
    hexValue? c = some value := by
  have hvalue : (table.map hexValue?)[value]? = some (hexValue? c) := by
    rw [List.getElem?_map, h, Option.map_some]
  rw [htable, List.getElem?_map] at hvalue
  obtain ⟨value', hrange, hc⟩ := Option.map_eq_some_iff.1 hvalue
  obtain ⟨hlt, hindex⟩ := List.getElem?_eq_some_iff.1 hrange
  rw [List.getElem_range] at hindex
  rw [← hc, hindex]

theorem hexValue?_of_isHexDigit (h : IsHexDigit c value) : hexValue? c = some value :=
  h.elim (hexValue?_of_table (by decide)) (hexValue?_of_table (by decide))

theorem isHexDigit_of_hexValue? (h : hexValue? c = some value) : IsHexDigit c value := by
  have hall : ∀ code : Fin 128, ∀ value ∈ hexValue? (Char.ofNat code),
      smallDigits[value]? = some (Char.ofNat code) ∨
        capitalDigits[value]? = some (Char.ofNat code) := by
    decide +kernel
  have hdigit := hall ⟨c.toNat, toNat_lt_of_hexValue? h⟩
  rw [Char.ofNat_toNat] at hdigit
  exact hdigit value h

theorem hexValue?_eq_some_iff : hexValue? c = some value ↔ IsHexDigit c value :=
  ⟨isHexDigit_of_hexValue?, hexValue?_of_isHexDigit⟩

theorem foldlM_hexValue?_eq_some_iff :
    digits.foldlM (fun total c ↦ do return total * 16 + (← hexValue? c)) total = some code ↔
      ∃ values, List.Forall₂ IsHexDigit digits values ∧
        code = total * 16 ^ digits.length + Nat.ofDigits 16 values.reverse := by
  induction digits generalizing total with
  | nil =>
    rw [List.foldlM_nil]
    constructor
    · intro h
      obtain rfl := Option.some.inj h
      exact ⟨[], .nil, by simp⟩
    · rintro ⟨values, hvalues, rfl⟩
      cases hvalues
      simp
  | cons c digits ih =>
    -- One digit more on the left is worth as much as there are places behind it.
    have hplaces (value : Nat) (values : List Nat) (hlength : values.length = digits.length) :
        (total * 16 + value) * 16 ^ digits.length + Nat.ofDigits 16 values.reverse =
          total * 16 ^ (c :: digits).length + Nat.ofDigits 16 (value :: values).reverse := by
      rw [List.reverse_cons, Nat.ofDigits_append, Nat.ofDigits_singleton, List.length_reverse,
        hlength, List.length_cons, pow_succ]
      ring
    rw [List.foldlM_cons]
    constructor
    · intro h
      obtain ⟨next, hnext, hrest⟩ := Option.bind_eq_some_iff.1 h
      obtain ⟨value, hvalue, hsum⟩ := Option.bind_eq_some_iff.1 hnext
      obtain rfl := Option.some.inj hsum
      obtain ⟨values, hvalues, rfl⟩ := ih.1 hrest
      exact ⟨value :: values, .cons (hexValue?_eq_some_iff.1 hvalue) hvalues,
        hplaces value values hvalues.length_eq.symm⟩
    · rintro ⟨values, hvalues, rfl⟩
      cases hvalues with
      | @cons _ value _ values hvalue hvalues =>
        rw [hexValue?_eq_some_iff.2 hvalue]
        exact ih.2 ⟨values, hvalues, (hplaces value values hvalues.length_eq.symm).symm⟩

theorem hexDigits?_eq_some_iff : hexDigits? digits = some code ↔ Denotes digits code := by
  rw [hexDigits?, foldlM_hexValue?_eq_some_iff, Denotes]
  refine exists_congr fun values ↦ and_congr_right fun _ ↦ ?_
  rw [Nat.zero_mul, Nat.zero_add, eq_comm]

/-! ## Code points -/

theorem char?_eq_some_iff : char? code = some c ↔ code = c.toNat := by
  constructor
  · intro h
    unfold char? at h
    split at h
    · rename_i hvalid
      obtain rfl := Option.some.inj h
      exact (Char.toNat_ofNat code ▸ if_pos hvalid).symm
    · cases h
  · rintro rfl
    exact char?_toNat c

/-- A plus sign is no digit. -/
theorem not_denotes_plus : ¬ Denotes ('+' :: digits) code := by
  rintro ⟨values, hvalues, -⟩
  cases hvalues with
  | cons hplus =>
    have hvalue := hexValue?_of_isHexDigit hplus
    cases hvalue

/-- A number is written in digits, before which a plus sign may stand. -/
theorem hexNumber?_eq_some_iff :
    hexNumber? text = some code ↔ ∃ sign digits, sign ∈ optionalPlus ∧ digits ≠ [] ∧
      text = sign ++ digits ∧ Denotes digits code := by
  rw [optionalPlus]
  constructor
  · intro h
    unfold hexNumber? at h
    split at h
    · cases h
    · cases h
    · rename_i digits hplus
      exact ⟨['+'], digits, by simp, fun hnil ↦ hplus (by rw [hnil]), rfl,
        hexDigits?_eq_some_iff.1 h⟩
    · rename_i hnil _ _
      exact ⟨[], text, by simp, hnil, rfl, hexDigits?_eq_some_iff.1 h⟩
  · rintro ⟨sign, digits, hsign, hne, rfl, hdigits⟩
    have hcode := hexDigits?_eq_some_iff.2 hdigits
    rcases List.mem_cons.1 hsign with rfl | hsign
    · rw [List.nil_append, hexNumber?_digits hne (forall_hexValue? hcode), hcode]
    · obtain rfl := List.mem_singleton.1 hsign
      rw [List.singleton_append, hexNumber?, hcode]
      exact hne

theorem utf8ByteSize_number {sign : List Char} (hsign : sign ∈ optionalPlus)
    (hdigits : Denotes digits code) :
    (String.ofList (sign ++ digits)).utf8ByteSize = (sign ++ digits).length := by
  have hsize := utf8ByteSize_digits (forall_hexValue? (hexDigits?_eq_some_iff.2 hdigits))
  rw [optionalPlus] at hsign
  rcases List.mem_cons.1 hsign with rfl | hsign
  · exact hsize
  · obtain rfl := List.mem_singleton.1 hsign
    rw [String.ofList_append, String.utf8ByteSize_append, hsize, List.length_append]
    rfl

/-- An escape of a code point takes exactly its number of characters, a plus sign among them. -/
theorem hexEscape_eq_ok_iff (hcount : 2 ≤ count) :
    hexEscape count rest = .ok c ↔
      ∃ sign digits tail, sign ∈ optionalPlus ∧ rest = sign ++ digits ++ tail ∧
        (sign ++ digits).length = count ∧ Denotes digits c.toNat := by
  constructor
  · intro h
    simp only [hexEscape] at h
    split at h
    · cases h
    · rename_i hsize
      rw [ne_eq, not_not] at hsize
      split at h
      · rename_i number hnumber
        obtain rfl := Except.ok.inj h
        obtain ⟨code, hcode, hchar⟩ := Option.bind_eq_some_iff.1 hnumber
        obtain rfl := char?_eq_some_iff.1 hchar
        obtain ⟨sign, digits, hsign, -, htake, hdigits⟩ := hexNumber?_eq_some_iff.1 hcode
        rw [htake, utf8ByteSize_number hsign hdigits] at hsize
        refine ⟨sign, digits, rest.drop count, hsign, ?_, hsize, hdigits⟩
        rw [← htake, List.take_append_drop]
      · cases h
  · rintro ⟨sign, digits, tail, hsign, rfl, rfl, hdigits⟩
    have hne : digits ≠ [] := by
      rintro rfl
      rw [optionalPlus] at hsign
      rcases List.mem_cons.1 hsign with rfl | hsign
      · cases hcount
      · obtain rfl := List.mem_singleton.1 hsign
        exact absurd hcount (by decide)
    have hcode : (hexNumber? (sign ++ digits) >>= char?) = some c := by
      rw [hexNumber?_eq_some_iff.2 ⟨sign, digits, hsign, hne, rfl, hdigits⟩]
      exact char?_toNat c
    unfold hexEscape
    simp only [List.take_left, utf8ByteSize_number hsign hdigits, ne_eq, not_true_eq_false,
      if_false, hcode]

/-! ## Escapes -/

theorem simpleEscape?_eq_some_iff : simpleEscape? kind = some c ↔ (kind, c) ∈ simpleEscapes := by
  constructor
  · intro h
    unfold simpleEscape? at h
    split at h
    case h_10 => cases h
    all_goals
      obtain rfl := Option.some.inj h
      decide
  · intro h
    have hall : ∀ entry ∈ simpleEscapes, simpleEscape? entry.1 = some entry.2 := by decide
    exact hall _ h

theorem escapeWidth?_eq_some_iff :
    escapeWidth? kind = some count ↔ (kind, count) ∈ codedEscapes := by
  constructor
  · intro h
    unfold escapeWidth? at h
    split at h
    case h_4 => cases h
    all_goals
      obtain rfl := Option.some.inj h
      decide
  · intro h
    have hall : ∀ entry ∈ codedEscapes, escapeWidth? entry.1 = some entry.2 := by decide
    exact hall _ h

theorem two_le_of_codedEscapes (h : (kind, count) ∈ codedEscapes) : 2 ≤ count := by
  have hall : ∀ entry ∈ codedEscapes, 2 ≤ entry.2 := by decide
  exact hall _ h

/-! ## Reading -/

/-- What was read is derived by the grammar, and the closing quote stands behind it. -/
theorem body_of_doubleQuoted (h : doubleQuoted rest = .ok (text, tail)) :
    ∃ written, rest = written ++ '"' :: tail ∧ Body optionalPlus text written := by
  fun_induction doubleQuoted rest generalizing text with
  | case1 => cases h
  | case2 inner =>
    obtain ⟨rfl, rfl⟩ := Prod.mk.inj (Except.ok.inj h)
    exact ⟨[], rfl, .nil⟩
  | case3 => cases h
  | case4 kind inner c hsimple ih =>
    obtain ⟨⟨text', tail'⟩, hread, hcons⟩ := bind_eq_ok_iff.1 h
    obtain ⟨rfl, rfl⟩ := Prod.mk.inj (Except.ok.inj hcons)
    obtain ⟨written, rfl, hbody⟩ := ih hread
    exact ⟨'\\' :: kind :: written, rfl, .simple (simpleEscape?_eq_some_iff.1 hsimple) hbody⟩
  | case5 kind inner count hcount hsimple ih =>
    have hkind := escapeWidth?_eq_some_iff.1 hcount
    obtain ⟨c, hc, h⟩ := bind_eq_ok_iff.1 h
    obtain ⟨⟨text', tail'⟩, hread, hcons⟩ := bind_eq_ok_iff.1 h
    obtain ⟨rfl, rfl⟩ := Prod.mk.inj (Except.ok.inj hcons)
    obtain ⟨sign, digits, behind, hsign, rfl, rfl, hdigits⟩ :=
      (hexEscape_eq_ok_iff (two_le_of_codedEscapes hkind)).1 hc
    rw [List.drop_left] at ih hread
    obtain ⟨written, rfl, hbody⟩ := ih hread
    refine ⟨'\\' :: kind :: (sign ++ digits ++ written), ?_, .coded hsign hkind hdigits hbody⟩
    simp only [List.cons_append, List.append_assoc]
  | case6 => cases h
  | case7 c inner hquote hlast hescape ih =>
    obtain ⟨⟨text', tail'⟩, hread, hcons⟩ := bind_eq_ok_iff.1 h
    obtain ⟨rfl, rfl⟩ := Prod.mk.inj (Except.ok.inj hcons)
    obtain ⟨written, rfl, hbody⟩ := ih hread
    refine ⟨c :: written, rfl, .verbatim hquote (fun hc ↦ ?_) hbody⟩
    cases written with
    | nil => exact hescape _ _ hc rfl
    | cons next written => exact hescape _ _ hc rfl

/-- What the grammar derives is read up to the closing quote. -/
theorem doubleQuoted_of_body (h : Body optionalPlus text written) (tail : List Char) :
    doubleQuoted (written ++ '"' :: tail) = .ok (text, tail) := by
  induction h with
  | nil => rw [List.nil_append, doubleQuoted]
  | verbatim hquote hbackslash h ih =>
    rw [List.cons_append, doubleQuoted, ih]
    · rfl
    · exact hquote
    · exact fun hc _ ↦ hbackslash hc
    · exact fun _ _ hc _ ↦ hbackslash hc
  | simple hkind h ih =>
    rw [List.cons_append, List.cons_append, doubleQuoted]
    simp only [simpleEscape?_eq_some_iff.2 hkind, ih]
    rfl
  | @coded kind c sign digits text written hsign hkind hdigits h ih =>
    have hcount := escapeWidth?_eq_some_iff.2 hkind
    have hc := (hexEscape_eq_ok_iff (two_le_of_codedEscapes hkind)).2
      ⟨sign, digits, written ++ '"' :: tail, hsign, rfl, rfl, hdigits⟩
    rw [List.cons_append, List.cons_append, doubleQuoted, List.append_assoc]
    simp only [(escapeWidth?_eq_some hcount).1, hcount, hc, List.drop_left, ih]
    rfl

theorem doubleQuoted_eq_ok_iff :
    doubleQuoted rest = .ok (text, tail) ↔
      ∃ written, rest = written ++ '"' :: tail ∧ Body optionalPlus text written := by
  constructor
  · exact body_of_doubleQuoted
  · rintro ⟨written, rfl, h⟩
    exact doubleQuoted_of_body h tail

/-- The offset is the length of what stands before the rest, the opening quote included. -/
theorem doubleQuotedEnd_of_append {front : List Char} (hread : doubleQuoted rest = .ok (text, tail))
    (hfront : '"' :: rest = front ++ tail) :
    doubleQuotedEnd 1 rest = .ok (text, byteLength front) := by
  have hlength : 1 + byteLength rest = byteLength front + byteLength tail := by
    have hquote : '"'.utf8Size = 1 := rfl
    rw [← byteLength_append, ← hfront, byteLength_cons, hquote]
  rw [doubleQuotedEnd_eq, hread, Except.map, endOffset, hlength, Nat.add_sub_cancel]

theorem doubleQuotedEnd_eq_ok_iff {stop : Nat} :
    doubleQuotedEnd 1 rest = .ok (text, stop) ↔ ∃ written tail, rest = written ++ '"' :: tail ∧
      Body optionalPlus text written ∧ stop = byteLength ('"' :: (written ++ ['"'])) := by
  have hstop {written tail : List Char} (hbody : Body optionalPlus text written) :
      doubleQuotedEnd 1 (written ++ '"' :: tail) =
        .ok (text, byteLength ('"' :: (written ++ ['"']))) :=
    doubleQuotedEnd_of_append (doubleQuoted_of_body hbody tail) (by simp)
  constructor
  · intro h
    cases hread : doubleQuoted rest with
    | error fault =>
      rw [doubleQuotedEnd_eq, hread] at h
      cases h
    | ok found =>
      obtain ⟨text', tail⟩ := found
      obtain rfl : text' = text := by
        rw [doubleQuotedEnd_eq, hread] at h
        exact (Prod.mk.inj (Except.ok.inj h)).1
      obtain ⟨written, rfl, hbody⟩ := body_of_doubleQuoted hread
      rw [hstop hbody] at h
      exact ⟨written, tail, rfl, hbody, (Prod.mk.inj (Except.ok.inj h)).2.symm⟩
  · rintro ⟨written, tail, rfl, hbody, rfl⟩
    exact hstop hbody

/-- Behind an opening quote a text is read exactly when the grammar derives what stands before a
closing quote, and the answer is the text that is written there, what is left, and the offset
behind the closing quote. A text that was written between double quotes is read back before
whatever follows. -/
theorem doubleQuoted_exact (inner : List Char) :
    (∀ text tail, doubleQuoted inner = .ok (text, tail) ↔
      ∃ written, inner = written ++ '"' :: tail ∧ Body optionalPlus text written) ∧
    (∀ text stop, doubleQuotedEnd 1 inner = .ok (text, stop) ↔
      ∃ written tail, inner = written ++ '"' :: tail ∧ Body optionalPlus text written ∧
        stop = byteLength ('"' :: (written ++ ['"']))) ∧
    ∀ text tail, doubleQuoted ((Scalar.doubleQuote text ++ tail).drop 1) = .ok (text, tail) ∧
      doubleQuotedEnd 1 ((Scalar.doubleQuote text ++ tail).drop 1) =
        .ok (text, byteLength (Scalar.doubleQuote text)) := by
  refine ⟨fun text tail ↦ doubleQuoted_eq_ok_iff, fun text stop ↦ doubleQuotedEnd_eq_ok_iff,
    fun text tail ↦ ?_⟩
  have hread : doubleQuoted ((Scalar.doubleQuote text ++ tail).drop 1) = .ok (text, tail) := by
    have hdrop : (Scalar.doubleQuote text ++ tail).drop 1 =
        text.flatMap Scalar.escape ++ '"' :: tail := by
      simp [Scalar.doubleQuote]
    rw [hdrop, doubleQuoted_doubleQuote]
  exact ⟨hread, doubleQuotedEnd_of_append hread rfl⟩

/-- A plus sign stands for a digit. -/
theorem plus_read_as_digit :
    ¬ ∀ (inner text : List Char) (stop : Nat), doubleQuotedEnd 1 inner = .ok (text, stop) ↔
      ∃ written tail, inner = written ++ '"' :: tail ∧ Body unsigned text written ∧
        stop = byteLength ('"' :: (written ++ ['"'])) := by
  intro h
  have hread : doubleQuotedEnd 1 ['\\', 'x', '+', '4', '"'] = .ok (['\x04'], 6) := by
    cbv
  obtain ⟨written, tail, hinner, hbody, -⟩ := (h _ _ _).1 hread
  cases hbody with
  | verbatim hquote hbackslash => exact hbackslash (List.cons.inj hinner).1.symm
  | simple hkind =>
    simp only [List.cons_append, List.cons.injEq] at hinner
    obtain ⟨-, rfl, -⟩ := hinner
    revert hkind
    decide
  | @coded _ _ _ digits _ _ hsign hkind hdigits =>
    obtain rfl := List.mem_singleton.1 hsign
    simp only [List.cons_append, List.nil_append, List.cons.injEq] at hinner
    obtain ⟨-, rfl, hinner⟩ := hinner
    cases digits with
    | nil => exact absurd hkind (by decide)
    | cons digit digits =>
      obtain rfl := (List.cons.inj hinner).1
      exact not_denotes_plus hdigits

end

end LayeredConfig.Inline
