import Mathlib

/-!
# Texts as bytes

A place in a text is an offset into its UTF-8 bytes. A text can be cut where a character begins or
behind its end. An ASCII character is one byte that is no part of any other character, so a place
where such a byte stands is a place to cut.
-/

namespace LayeredConfig.Text

/-- The UTF-8 bytes of a text. -/
def bytes (text : List Char) : List UInt8 :=
  text.flatMap String.utf8EncodeChar

/-- The number of bytes. -/
def byteLength (text : List Char) : Nat :=
  (bytes text).length

/-- The parts before and behind an offset, unless it lies within a character or behind the end. -/
def cut? : Nat → List Char → Option (List Char × List Char)
  | 0, text => some ([], text)
  | _ + 1, [] => none
  | offset + 1, c :: rest =>
    if c.utf8Size ≤ offset + 1 then
      (cut? (offset + 1 - c.utf8Size) rest).map fun (front, back) => (c :: front, back)
    else none

/-- Whether the byte at an offset is this character; there is no byte behind the end. -/
def isAt? (text : List Char) (offset : Nat) (c : Char) : Option Bool :=
  (bytes text)[offset]?.map fun byte => byte.toNat == c.toNat

/-! ## Lengths -/

theorem bytes_cons (c : Char) (text : List Char) :
    bytes (c :: text) = String.utf8EncodeChar c ++ bytes text :=
  List.flatMap_cons

theorem bytes_append (a b : List Char) : bytes (a ++ b) = bytes a ++ bytes b :=
  List.flatMap_append

@[simp] theorem byteLength_nil : byteLength [] = 0 := rfl

@[simp] theorem byteLength_cons (c : Char) (text : List Char) :
    byteLength (c :: text) = c.utf8Size + byteLength text := by
  rw [byteLength, bytes_cons, List.length_append, String.length_utf8EncodeChar, byteLength]

@[simp] theorem byteLength_append (a b : List Char) :
    byteLength (a ++ b) = byteLength a + byteLength b := by
  rw [byteLength, bytes_append, List.length_append, byteLength, byteLength]

theorem byteLength_concat (text : List Char) (c : Char) :
    byteLength (text ++ [c]) = byteLength text + c.utf8Size := by
  rw [byteLength_append, byteLength_cons, byteLength_nil, Nat.add_zero]

theorem cut?_append (a b : List Char) : cut? (byteLength a) (a ++ b) = some (a, b) := by
  induction a with
  | nil => rw [byteLength_nil, List.nil_append, cut?]
  | cons c a ih =>
    obtain ⟨size, hsize⟩ := Nat.exists_eq_succ_of_ne_zero (Nat.pos_iff_ne_zero.1 c.utf8Size_pos)
    have hoffset : byteLength (c :: a) = size + byteLength a + 1 := by
      rw [byteLength_cons]
      omega
    rw [hoffset, List.cons_append, cut?, if_pos (by omega)]
    have hrest : size + byteLength a + 1 - c.utf8Size = byteLength a := by omega
    rw [hrest, ih]
    rfl

theorem byteLength_of_forall {text : List Char} (h : ∀ c ∈ text, c.utf8Size = 1) :
    byteLength text = text.length := by
  induction text with
  | nil => rfl
  | cons c text ih =>
    rw [List.forall_mem_cons] at h
    rw [byteLength_cons, h.1, ih h.2, List.length_cons, Nat.add_comm]

/-! ## ASCII bytes -/

theorem utf8EncodeChar_of_ascii {c : Char} (h : c.toNat < 128) :
    String.utf8EncodeChar c = [UInt8.ofNat c.toNat] := by
  have hle : c.val.toNat ≤ 127 := Nat.le_of_lt_succ h
  unfold String.utf8EncodeChar
  rw [if_pos hle]
  rfl

theorem utf8Size_of_ascii {c : Char} (h : c.toNat < 128) : c.utf8Size = 1 := by
  rw [← String.length_utf8EncodeChar, utf8EncodeChar_of_ascii h]
  rfl

/-- Every byte of a longer character is out of the ASCII range. -/
theorem le_of_mem_utf8EncodeChar {c : Char} (h : 128 ≤ c.toNat) {byte : UInt8}
    (hbyte : byte ∈ String.utf8EncodeChar c) : 128 ≤ byte.toNat := by
  have hgt : ¬ c.val.toNat ≤ 127 := Nat.not_le_of_lt h
  unfold String.utf8EncodeChar at hbyte
  simp only [if_neg hgt] at hbyte
  split at hbyte
  · simp only [List.mem_cons, List.not_mem_nil, or_false] at hbyte
    rcases hbyte with rfl | rfl <;> rw [UInt8.toNat_ofNat'] <;> omega
  split at hbyte
  · simp only [List.mem_cons, List.not_mem_nil, or_false] at hbyte
    rcases hbyte with rfl | rfl | rfl <;> rw [UInt8.toNat_ofNat'] <;> omega
  · simp only [List.mem_cons, List.not_mem_nil, or_false] at hbyte
    rcases hbyte with rfl | rfl | rfl | rfl <;> rw [UInt8.toNat_ofNat'] <;> omega

/-- The first byte of a character tells whether it is a certain ASCII character, and no other byte
is an ASCII character. -/
theorem exists_utf8EncodeChar (c : Char) :
    ∃ first rest, String.utf8EncodeChar c = first :: rest ∧
      (∀ a : Char, a.toNat < 128 → (first.toNat == a.toNat) = (c == a)) ∧
      ∀ byte ∈ rest, 128 ≤ byte.toNat := by
  by_cases h : c.toNat < 128
  · refine ⟨_, [], utf8EncodeChar_of_ascii h, fun a ha ↦ ?_, List.forall_mem_nil _⟩
    have hfirst : (UInt8.ofNat c.toNat).toNat = c.toNat := by
      rw [UInt8.toNat_ofNat']
      omega
    rw [hfirst, Bool.eq_iff_iff, beq_iff_eq, beq_iff_eq]
    exact ⟨fun heq ↦ Char.toNat_inj.1 heq, fun heq ↦ by rw [heq]⟩
  · have hbytes := fun byte ↦ @le_of_mem_utf8EncodeChar c (Nat.le_of_not_lt h) byte
    have hne : String.utf8EncodeChar c ≠ [] := String.utf8EncodeChar_ne_nil
    obtain ⟨first, rest, hcons⟩ := List.exists_cons_of_ne_nil hne
    rw [hcons] at hbytes
    refine ⟨first, rest, hcons, fun a ha ↦ ?_,
      fun byte hmem ↦ hbytes _ (List.mem_cons_of_mem _ hmem)⟩
    have hfirst := hbytes first List.mem_cons_self
    have hne : first.toNat ≠ a.toNat := by omega
    have hne' : c ≠ a := by
      rintro rfl
      exact h ha
    rw [beq_eq_false_iff_ne.2 hne, beq_eq_false_iff_ne.2 hne']

/-- Where a character begins its first byte is found. -/
theorem isAt?_byteLength {a : Char} (ha : a.toNat < 128) (front : List Char) (c : Char)
    (rest : List Char) : isAt? (front ++ c :: rest) (byteLength front) a = some (c == a) := by
  obtain ⟨first, more, hcons, hfirst, -⟩ := exists_utf8EncodeChar c
  rw [isAt?, bytes_append, bytes_cons, hcons, byteLength,
    List.getElem?_append_right (Nat.le_refl _), Nat.sub_self, List.cons_append,
    List.getElem?_cons_zero, Option.map_some, hfirst a ha]

/-- Within a character no ASCII character is found. -/
theorem isAt?_within {a : Char} (ha : a.toNat < 128) (front : List Char) {c : Char}
    (rest : List Char) {index : Nat} (hpos : 0 < index) (hlt : index < c.utf8Size) :
    isAt? (front ++ c :: rest) (byteLength front + index) a = some false := by
  obtain ⟨first, more, hcons, -, hmore⟩ := exists_utf8EncodeChar c
  have hlength : more.length + 1 = c.utf8Size := by
    rw [← String.length_utf8EncodeChar, hcons, List.length_cons]
  obtain ⟨index, rfl⟩ := Nat.exists_eq_succ_of_ne_zero (Nat.pos_iff_ne_zero.1 hpos)
  have hindex : index < more.length := by omega
  have hle := hmore more[index] (List.getElem_mem hindex)
  have hne : more[index].toNat ≠ a.toNat := by omega
  rw [isAt?, bytes_append, bytes_cons, hcons, byteLength, List.getElem?_append_right (by omega),
    Nat.add_sub_cancel_left, List.cons_append, List.getElem?_cons_succ,
    List.getElem?_append_left hindex, List.getElem?_eq_getElem hindex, Option.map_some,
    beq_eq_false_iff_ne.2 hne]

/-- The last byte of a text tells whether it ends in a certain ASCII character. -/
theorem isAt?_last {a : Char} (ha : a.toNat < 128) {front : List Char} (hne : front ≠ [])
    (rest : List Char) :
    isAt? (front ++ rest) (byteLength front - 1) a = some (front.getLast? == some a) := by
  obtain ⟨front, c, rfl⟩ := (List.eq_nil_or_concat' front).resolve_left hne
  have hpos := c.utf8Size_pos
  rw [← List.append_cons, List.getLast?_append, byteLength_concat]
  by_cases hsize : c.utf8Size = 1
  · have hoffset : byteLength front + c.utf8Size - 1 = byteLength front := by omega
    rw [hoffset, isAt?_byteLength ha]
    rfl
  · have hoffset : byteLength front + c.utf8Size - 1 = byteLength front + (c.utf8Size - 1) := by
      omega
    have hne : c ≠ a := by
      rintro rfl
      exact hsize (utf8Size_of_ascii ha)
    rw [hoffset, isAt?_within ha front rest (by omega) (by omega), ← beq_eq_false_iff_ne.2 hne]
    rfl

end LayeredConfig.Text
