import LayeredConfig.Proofs.Document.Inline

/-!
# Spellings of a scalar

A text can be spelled in more ways than it is written: between single quotes whatever it holds
apart from line feeds, and between double quotes with any choice of escapes. Every spelling is read
as the text, as a value and as a key.
-/

namespace LayeredConfig.Inline

open Text

/-- A text and what may stand for it between double quotes. -/
inductive Escaped : List Char → List Char → Prop
  | nil : Escaped [] []
  | verbatim {c : Char} {text written : List Char} (hquote : c ≠ '"') (hbackslash : c ≠ '\\')
      (hline : c ≠ '\n') (h : Escaped text written) : Escaped (c :: text) (c :: written)
  | simple {kind c : Char} {text written : List Char} (hc : simpleEscape? kind = some c)
      (h : Escaped text written) : Escaped (c :: text) ('\\' :: kind :: written)
  /-- The code point in as many hexadecimal digits as the escape takes. -/
  | coded {kind c : Char} {digits text written : List Char}
      (hkind : escapeWidth? kind = some digits.length) (hc : hexDigits? digits = some c.toNat)
      (h : Escaped text written) : Escaped (c :: text) ('\\' :: kind :: (digits ++ written))

/-- A text, a way to write it on a line, and the style of that way. -/
inductive Spelled : List Char → List Char → ScalarStyle → Prop
  | plain {text : List Char} (h : Scalar.isPlainSafe text = true) : Spelled text text .plain
  | single {text : List Char} (h : '\n' ∉ text) :
      Spelled text (Scalar.singleQuote text) .singleQuoted
  | double {text written : List Char} (h : Escaped text written) :
      Spelled text ('"' :: (written ++ ['"'])) .doubleQuoted

section

variable {c : Char} {text written digits rest : List Char} {style : ScalarStyle}

/-! ## Hexadecimal digits -/

theorem toNat_lt_of_hexValue? {value : Nat} (h : hexValue? c = some value) : c.toNat < 128 := by
  unfold hexValue? at h
  simp only [Bool.and_eq_true, decide_eq_true_eq, Char.le_def, UInt32.le_iff_toNat_le] at h
  split at h
  · rename_i hc
    exact Nat.lt_of_le_of_lt hc.2 (by decide)
  split at h
  · rename_i hc
    exact Nat.lt_of_le_of_lt hc.2 (by decide)
  split at h
  · rename_i hc
    exact Nat.lt_of_le_of_lt hc.2 (by decide)
  · cases h

theorem forall_hexValue? {code total : Nat}
    (h : digits.foldlM (fun total c ↦ do return total * 16 + (← hexValue? c)) total = some code) :
    ∀ c ∈ digits, ∃ value, hexValue? c = some value := by
  induction digits generalizing total with
  | nil => exact List.forall_mem_nil _
  | cons c digits ih =>
    obtain ⟨next, hnext, hrest⟩ := Option.bind_eq_some_iff.1 h
    obtain ⟨value, hvalue, -⟩ := Option.bind_eq_some_iff.1 hnext
    exact List.forall_mem_cons.2 ⟨⟨value, hvalue⟩, ih hrest⟩

theorem utf8ByteSize_digits (h : ∀ c ∈ digits, ∃ value, hexValue? c = some value) :
    (String.ofList digits).utf8ByteSize = digits.length := by
  induction digits with
  | nil => rfl
  | cons c digits ih =>
    obtain ⟨⟨value, hvalue⟩, hdigits⟩ := List.forall_mem_cons.1 h
    have hc : c.utf8Size = 1 :=
      Char.utf8Size_eq_one_iff.2 (Nat.le_of_lt_succ (toNat_lt_of_hexValue? hvalue))
    simp [hc, ih hdigits, Nat.add_comm]

theorem hexNumber?_digits (hne : digits ≠ [])
    (h : ∀ c ∈ digits, ∃ value, hexValue? c = some value) :
    hexNumber? digits = hexDigits? digits := by
  have hplus : ∀ rest, digits ≠ '+' :: rest := by
    rintro rest rfl
    obtain ⟨value, hvalue⟩ := h '+' List.mem_cons_self
    cases hvalue
  unfold hexNumber?
  split
  · exact absurd rfl hne
  · exact absurd rfl (hplus [])
  · exact absurd rfl (hplus _)
  · rfl

theorem char?_toNat (c : Char) : char? c.toNat = some c := by
  rw [char?, if_pos (show c.toNat.isValidChar from c.valid), Char.ofNat_toNat]

theorem hexEscape_digits (hne : digits ≠ []) (hc : hexDigits? digits = some c.toNat)
    (rest : List Char) : hexEscape digits.length (digits ++ rest) = .ok c := by
  have hall := forall_hexValue? hc
  have hcode : (hexNumber? digits >>= char?) = some c := by
    rw [hexNumber?_digits hne hall, hc]
    exact char?_toNat c
  unfold hexEscape
  simp only [List.take_left, utf8ByteSize_digits hall, ne_eq, not_true_eq_false, if_false, hcode]

/-! ## Double quotes -/

theorem escapeWidth?_eq_some {kind : Char} {count : Nat} (h : escapeWidth? kind = some count) :
    simpleEscape? kind = none ∧ 0 < count ∧ kind ≠ '\n' := by
  unfold escapeWidth? at h
  split at h
  · obtain rfl := Option.some.inj h
    exact ⟨rfl, by decide, by decide⟩
  · obtain rfl := Option.some.inj h
    exact ⟨rfl, by decide, by decide⟩
  · obtain rfl := Option.some.inj h
    exact ⟨rfl, by decide, by decide⟩
  · cases h

theorem doubleQuoted_escaped (h : Escaped text written) (rest : List Char) :
    doubleQuoted (written ++ '"' :: rest) = .ok (text, rest) := by
  induction h with
  | nil => rw [List.nil_append, doubleQuoted]
  | verbatim hquote hbackslash hline h ih =>
    rw [List.cons_append, doubleQuoted, ih]
    · rfl
    · exact hquote
    · exact fun hc _ ↦ hbackslash hc
    · exact fun _ _ hc _ ↦ hbackslash hc
  | simple hc h ih =>
    rw [List.cons_append, List.cons_append, doubleQuoted]
    simp only [hc, ih]
    rfl
  | coded hkind hc h ih =>
    rename_i kind c digits text written
    obtain ⟨hsimple, hlength, -⟩ := escapeWidth?_eq_some hkind
    have hne : digits ≠ [] := List.length_pos_iff.1 hlength
    rw [List.cons_append, List.cons_append, doubleQuoted]
    simp only [hsimple, hkind, List.append_assoc, hexEscape_digits hne hc, List.drop_left, ih]
    rfl

/-- Between double quotes any text can be spelled. -/
theorem exists_escaped (text : List Char) : ∃ written, Escaped text written := by
  induction text with
  | nil => exact ⟨[], .nil⟩
  | cons c text ih =>
    obtain ⟨written, h⟩ := ih
    by_cases hquote : c = '"'
    · exact ⟨_, @Escaped.simple '"' _ _ _ (by rw [hquote]; rfl) h⟩
    by_cases hbackslash : c = '\\'
    · exact ⟨_, @Escaped.simple '\\' _ _ _ (by rw [hbackslash]; rfl) h⟩
    by_cases hline : c = '\n'
    · exact ⟨_, @Escaped.simple 'n' _ _ _ (by rw [hline]; rfl) h⟩
    · exact ⟨_, .verbatim hquote hbackslash hline h⟩

theorem not_mem_escaped (h : Escaped text written) : '\n' ∉ written := by
  induction h with
  | nil => exact List.not_mem_nil
  | verbatim _ _ hline _ ih =>
    rw [List.mem_cons, not_or]
    exact ⟨hline.symm, ih⟩
  | simple hc _ ih =>
    rw [List.mem_cons, List.mem_cons, not_or, not_or]
    refine ⟨by decide, ?_, ih⟩
    rintro rfl
    cases hc
  | coded hkind hc _ ih =>
    rw [List.mem_cons, List.mem_cons, List.mem_append, not_or, not_or, not_or]
    refine ⟨by decide, (escapeWidth?_eq_some hkind).2.2.symm, fun hmem ↦ ?_, ih⟩
    obtain ⟨value, hvalue⟩ := forall_hexValue? hc _ hmem
    cases hvalue

/-! ## Spellings are read -/

/-- A spelling is plain, or it starts with a quote and is read up to the closing one. -/
theorem Spelled.plain_or_quoted (h : Spelled text written style) :
    Written text written style ∧ style = .plain ∨
      ∃ first more, written = first :: more ∧ (first = '"' ∨ first = '\'') ∧
        ∀ tail : List Char, tail.head? ≠ some '\'' →
          scalar (written ++ tail) = .ok ⟨text, style, tail⟩ := by
  cases h with
  | plain h => exact .inl ⟨.plain (plainText_of_isPlainSafe h), rfl⟩
  | single => exact .inr ⟨'\'', _, rfl, .inr rfl, fun tail htail ↦ scalar_single text htail⟩
  | double h =>
    refine .inr ⟨'"', _, rfl, .inl rfl, fun tail _ ↦ ?_⟩
    rw [List.cons_append, List.append_assoc, List.singleton_append]
    simp only [scalar, doubleQuoted_escaped h]
    rfl

theorem Spelled.exists_cons (h : Spelled text written style) :
    ∃ first more, written = first :: more ∧ isBlank first = false ∧
      (first = '"' ∨ first = '\'' ∨ first ∉ Scalar.indicators) := by
  rcases h.plain_or_quoted with ⟨hwritten, -⟩ | ⟨first, more, rfl, rfl | rfl, -⟩
  · exact hwritten.exists_cons
  · exact ⟨_, more, rfl, by decide, .inl rfl⟩
  · exact ⟨_, more, rfl, by decide, .inr (.inl rfl)⟩

/-- No indicator but a quote starts a spelling. -/
theorem Spelled.head_ne (h : Spelled text written style) {first : Char} {more : List Char}
    (hcons : written = first :: more) (hc : c ∈ Scalar.indicators) (hdouble : c ≠ '"')
    (hsingle : c ≠ '\'') : first ≠ c := by
  obtain ⟨first', more', hcons', -, hfirst⟩ := h.exists_cons
  obtain rfl : first' = first := (List.cons.inj (hcons'.symm.trans hcons)).1
  rintro rfl
  rcases hfirst with rfl | rfl | hfirst
  · exact hdouble rfl
  · exact hsingle rfl
  · exact hfirst hc

theorem Spelled.scalar_eq (h : Spelled text written style) :
    scalar written = .ok ⟨text, style, []⟩ := by
  rcases h.plain_or_quoted with ⟨hwritten, -⟩ | ⟨_, _, -, -, hscalar⟩
  · have hread := hwritten.scalar_append (.inl rfl)
    rwa [List.append_nil] at hread
  · have hread := hscalar [] (by simp)
    rwa [List.append_nil] at hread

/-- A spelling before a separating colon is a key. -/
theorem Spelled.splitKey_append (h : Spelled text written style) (hrest : endsKey rest = true) :
    splitKey (written ++ ':' :: rest) = .ok (some ⟨text, style, rest⟩) := by
  rcases h.plain_or_quoted with ⟨hwritten, -⟩ | ⟨first, more, rfl, hquote, hscalar⟩
  · exact hwritten.splitKey_append hrest
  · have hread := hscalar (':' :: rest) (by simp)
    have hcolon : trimStart (':' :: rest) = ':' :: rest := trimStart_cons_of_not_blank (by decide)
    rw [List.cons_append] at hread ⊢
    rw [splitKey_of_scalar hquote hread]
    simp [keyBefore, hcolon, hrest]

theorem Spelled.splitKey_eq_none (h : Spelled text written style) :
    splitKey written = .ok none := by
  rcases h.plain_or_quoted with ⟨hwritten, -⟩ | ⟨first, more, rfl, hquote, -⟩
  · have hkey := hwritten.splitKey_eq_none (.inl rfl)
    rwa [List.append_nil] at hkey
  · rw [splitKey_of_scalar hquote h.scalar_eq]
    rfl

theorem Spelled.clean (h : Spelled text written style) : Clean written := by
  cases h with
  | plain h => exact (Written.plain (plainText_of_isPlainSafe h)).clean
  | single h => exact clean_singleQuote h
  | double h =>
    rename_i written
    have hinner : '\n' ∉ '"' :: written := by
      rw [List.mem_cons, not_or]
      exact ⟨by decide, not_mem_escaped h⟩
    exact Clean.append hinner ⟨by decide, endsClean_singleton (by decide)⟩ (List.cons_ne_nil _ _)

end

end LayeredConfig.Inline
