import LayeredConfig.Document.Reader
import LayeredConfig.Document.Writer
import LayeredConfig.Proofs.Outcome
import LayeredConfig.Proofs.Text.Lines

/-!
# Written scalars are read back

A scalar that was written is read back with its text, whatever characters it has, and with the
style it was written in. It is read back as a key when a separating colon follows, and as a value
when nothing but perhaps a comment follows; in the place of an item it is never taken for a key.
-/

namespace LayeredConfig.Inline

open Text

/-! ## Double quotes -/

theorem hexEscape_hex4 {c : Char} (hc : isControl c = true) (rest : List Char) :
    hexEscape 4 (Scalar.hex4 c.toNat ++ rest) = .ok c := by
  have hlt : c.toNat < 160 := by
    unfold isControl at hc
    simp only [Bool.or_eq_true, decide_eq_true_eq, Bool.and_eq_true] at hc
    omega
  have hwidth : ∀ n : Fin 160, (String.ofList (Scalar.hex4 n)).utf8ByteSize = 4 := by decide +kernel
  have hcode : ∀ n : Fin 160, (hexNumber? (Scalar.hex4 n) >>= char?) = some (Char.ofNat n) := by
    decide +kernel
  have htake : (Scalar.hex4 c.toNat ++ rest).take 4 = Scalar.hex4 c.toNat := rfl
  unfold hexEscape
  simp only [htake, hwidth ⟨c.toNat, hlt⟩, hcode ⟨c.toNat, hlt⟩, ne_eq, not_true_eq_false,
    if_false, Char.ofNat_toNat]

/-- One escaped character is read as that character, before whatever stands behind it. -/
theorem doubleQuoted_escape (c : Char) (rest : List Char) :
    doubleQuoted (Scalar.escape c ++ rest) =
      (doubleQuoted rest).map fun (text, tail) ↦ (c :: text, tail) := by
  unfold Scalar.escape
  split
  all_goals try (rw [List.cons_append, List.cons_append, List.nil_append, doubleQuoted]; rfl)
  rename_i hbackslash hquote _ _ _ _
  split
  · rename_i hcontrol
    rw [List.cons_append, List.cons_append, doubleQuoted]
    have hsimple : simpleEscape? 'u' = none := rfl
    have hcount : escapeWidth? 'u' = some 4 := rfl
    have hdrop : (Scalar.hex4 c.toNat ++ rest).drop 4 = rest := rfl
    simp only [hsimple, hcount, hexEscape_hex4 hcontrol, hdrop]
    rfl
  · rw [List.cons_append, List.nil_append, doubleQuoted]
    · rfl
    · exact fun h ↦ hquote h
    · exact fun h ↦ fun _ ↦ hbackslash h
    · exact fun _ _ h ↦ fun _ ↦ hbackslash h

theorem doubleQuoted_doubleQuote (text rest : List Char) :
    doubleQuoted (text.flatMap Scalar.escape ++ '"' :: rest) = .ok (text, rest) := by
  induction text with
  | nil => rw [List.flatMap_nil, List.nil_append, doubleQuoted]
  | cons c text ih =>
    rw [List.flatMap_cons, List.append_assoc, doubleQuoted_escape, ih]
    rfl

/-! ## Single quotes -/

theorem singleQuoted_singleQuote (text : List Char) {rest : List Char}
    (hrest : rest.head? ≠ some '\'') :
    singleQuoted (text.flatMap (fun c ↦ if c = '\'' then ['\'', '\''] else [c]) ++
      '\'' :: rest) = .ok (text, rest) := by
  induction text with
  | nil =>
    rw [List.flatMap_nil, List.nil_append]
    cases rest with
    | nil => rfl
    | cons c rest =>
      have hc : c ≠ '\'' := fun hc ↦ hrest (by rw [hc, List.head?_cons])
      rw [singleQuoted]
      exact fun _ h ↦ hc (List.cons.inj h).1
  | cons c text ih =>
    rw [List.flatMap_cons, List.append_assoc]
    split
    · rename_i hc
      rw [List.cons_append, List.cons_append, List.nil_append, singleQuoted, ih, hc]
      rfl
    · rename_i hc
      rw [List.cons_append, List.nil_append, singleQuoted, ih]
      · rfl
      · exact fun _ h _ ↦ hc h
      · exact fun h ↦ hc h

/-! ## Plain text -/

/-- What makes a text safe to write plain. -/
structure PlainText (text : List Char) : Prop where
  ne_nil : text ≠ []
  startsClean : ∀ c ∈ text.head?, isBlank c = false
  endsClean : EndsClean text
  notIndicated : ∀ c ∈ text.head?, c ∉ Scalar.indicators
  noSeparator : Scalar.hasPair ':' ' ' text = false
  noComment : Scalar.hasPair ' ' '#' text = false
  noFinalColon : text.getLast? ≠ some ':'
  noControl : text.any isControl = false

theorem plainText_of_isPlainSafe {text : List Char} (h : Scalar.isPlainSafe text = true) :
    PlainText text := by
  cases text with
  | nil => exact absurd h (by decide)
  | cons first rest =>
    simp only [Scalar.isPlainSafe, Bool.and_eq_true, Bool.not_eq_true', beq_iff_eq, bne_iff_ne,
      ne_eq] at h
    obtain ⟨⟨⟨⟨⟨htrim, hfirst⟩, hseparator⟩, hcomment⟩, hcolon⟩, hcontrol⟩ := h
    have hstart : trimStart (first :: rest) = first :: rest := by
      apply (trimStart_suffix _).eq_of_length_le
      have hlength := length_trimEnd_le (trimStart (first :: rest))
      unfold trim at htrim
      rwa [htrim] at hlength
    refine ⟨List.cons_ne_nil _ _, ?_, ?_, ?_, hseparator, hcomment, hcolon, hcontrol⟩
    · intro c hc
      obtain rfl : first = c := by simpa using hc
      exact isBlank_head_trimStart hstart
    · unfold trim at htrim
      rw [hstart] at htrim
      exact endsClean_iff.2 htrim
    · intro c hc
      obtain rfl : first = c := by simpa using hc
      simpa using hfirst

/-- What may stand behind a value on its line. -/
def IsTrailing (tail : List Char) : Prop :=
  tail = [] ∨ ∃ rest, tail = ' ' :: '#' :: rest

theorem splitComment_append {text tail : List Char} (hpair : Scalar.hasPair ' ' '#' text = false)
    (hlast : text.getLast? ≠ some ' ') (htail : IsTrailing tail) :
    splitComment (text ++ tail) = (text, tail) := by
  induction text with
  | nil =>
    rcases htail with rfl | ⟨rest, rfl⟩ <;> rfl
  | cons c text ih =>
    have hrest : Scalar.hasPair ' ' '#' text = false := by
      cases text with
      | nil => rfl
      | cons d text =>
        simp only [Scalar.hasPair, Bool.or_eq_false_iff] at hpair
        exact hpair.2
    have hlast' : text.getLast? ≠ some ' ' := by
      cases text with
      | nil => simp
      | cons d text => rwa [List.getLast?_cons_cons] at hlast
    rw [List.cons_append, splitComment, ih hrest hlast']
    intro rest hc happend
    cases text with
    | nil => exact hlast (by rw [hc]; rfl)
    | cons d text =>
      rw [List.cons_append, List.cons.injEq] at happend
      simp [Scalar.hasPair, hc, happend.1] at hpair

/-! ## Keys -/

/-- A text without separators goes on until the separating colon behind it. The characters that
were passed over matter only where a number sign could open a comment. -/
theorem splitPlainKey_append {mid : List Char} (before rest : List Char)
    (hcomment : Scalar.hasPair ' ' '#' mid = false)
    (hopen : before.head? = some ' ' → mid.head? ≠ some '#')
    (hseparator : Scalar.hasPair ':' ' ' mid = false) (hcolon : mid.getLast? ≠ some ':')
    (hkey : before.reverse ++ mid ≠ []) (hends : EndsClean (before.reverse ++ mid))
    (hrest : endsKey rest = true) :
    splitPlainKey before (mid ++ ':' :: rest) = some (before.reverse ++ mid, rest) := by
  induction mid generalizing before with
  | nil =>
    rw [List.append_nil] at hkey hends
    rw [List.nil_append, splitPlainKey, List.append_nil, trimEnd_eq_self hends]
    rw [if_neg (by simp), if_pos (by simp [hrest])]
    split
    · rename_i hnil
      exact absurd hnil hkey
    · rfl
  | cons c mid ih =>
    have hnext : Scalar.hasPair ' ' '#' mid = false ∧ (c = ' ' → mid.head? ≠ some '#') := by
      cases mid with
      | nil => exact ⟨rfl, fun _ ↦ by simp⟩
      | cons d mid =>
        simp only [Scalar.hasPair, Bool.or_eq_false_iff, Bool.and_eq_false_iff, beq_eq_false_iff_ne]
          at hcomment
        refine ⟨hcomment.2, fun hc hd ↦ ?_⟩
        rcases hcomment.1 with h | h
        · exact h hc
        · exact h (by simpa using hd)
    have hstep : Scalar.hasPair ':' ' ' mid = false ∧
        (c = ':' → endsKey (mid ++ ':' :: rest) = false) ∧ mid.getLast? ≠ some ':' := by
      cases mid with
      | nil =>
        refine ⟨rfl, fun hc ↦ ?_, by simp⟩
        exact absurd (by rw [hc]; rfl) hcolon
      | cons d mid =>
        simp only [Scalar.hasPair, Bool.or_eq_false_iff, Bool.and_eq_false_iff, beq_eq_false_iff_ne]
          at hseparator
        refine ⟨hseparator.2, fun hc ↦ ?_, by rwa [List.getLast?_cons_cons] at hcolon⟩
        rcases hseparator.1 with h | h
        · exact absurd hc h
        · rw [List.cons_append, endsKey, beq_eq_false_iff_ne]
          exact h
    rw [List.cons_append, splitPlainKey, if_neg, if_neg, ih (c :: before)]
    · simp
    · exact hnext.1
    · simpa using hnext.2
    · exact hstep.1
    · exact hstep.2.2
    · simp
    · simpa using hends
    · rw [Bool.and_eq_true, decide_eq_true_eq]
      rintro ⟨hc, hend⟩
      rw [hstep.2.1 hc] at hend
      exact Bool.false_ne_true hend
    · rw [Bool.and_eq_true, decide_eq_true_eq, decide_eq_true_eq]
      rintro ⟨hc, hhead⟩
      exact hopen hhead (by rw [hc, List.head?_cons])

/-- A value behind which only a comment may stand holds no key. -/
theorem splitPlainKey_eq_none {mid tail : List Char} (before : List Char)
    (hseparator : Scalar.hasPair ':' ' ' mid = false) (hcolon : mid.getLast? ≠ some ':')
    (htail : IsTrailing tail) : splitPlainKey before (mid ++ tail) = none := by
  induction mid generalizing before with
  | nil =>
    rcases htail with rfl | ⟨rest, rfl⟩
    · rfl
    · simp [splitPlainKey]
  | cons c mid ih =>
    rw [List.cons_append, splitPlainKey]
    split
    · rfl
    · rw [if_neg]
      · apply ih (c :: before)
        · cases mid with
          | nil => rfl
          | cons d mid =>
            simp only [Scalar.hasPair, Bool.or_eq_false_iff] at hseparator
            exact hseparator.2
        · cases mid with
          | nil => simp
          | cons d mid => rwa [List.getLast?_cons_cons] at hcolon
      · rw [Bool.and_eq_true, decide_eq_true_eq]
        rintro ⟨hc, hend⟩
        cases mid with
        | nil => exact hcolon (by rw [hc]; rfl)
        | cons d mid =>
          rw [List.cons_append, endsKey, beq_iff_eq] at hend
          simp [Scalar.hasPair, hc, hend] at hseparator

/-! ## Written scalars -/

/-- The style in which a scalar is written. -/
def writtenStyle (text : List Char) : ScalarStyle → ScalarStyle
  | .plain => if Scalar.isPlainSafe text then .plain else .doubleQuoted
  | .singleQuoted => if text.any isControl then .doubleQuoted else .singleQuoted
  | .doubleQuoted => .doubleQuoted

theorem render_writtenStyle (text : List Char) (style : ScalarStyle) :
    Scalar.render text (writtenStyle text style) = Scalar.render text style := by
  cases style with
  | plain => by_cases h : Scalar.isPlainSafe text = true <;> simp [writtenStyle, Scalar.render, h]
  | singleQuoted => by_cases h : text.any isControl = true <;> simp [writtenStyle, Scalar.render, h]
  | doubleQuoted => rfl

/-- How a written scalar begins: plain, or with a quote. -/
inductive Written (text : List Char) : List Char → ScalarStyle → Prop
  | plain : PlainText text → Written text text .plain
  | single : text.any isControl = false → Written text (Scalar.singleQuote text) .singleQuoted
  | double : Written text (Scalar.doubleQuote text) .doubleQuoted

theorem written_render (text : List Char) (style : ScalarStyle) :
    Written text (Scalar.render text style) (writtenStyle text style) := by
  cases style with
  | plain =>
    by_cases h : Scalar.isPlainSafe text = true
    · simpa [writtenStyle, Scalar.render, h] using Written.plain (plainText_of_isPlainSafe h)
    · simpa [writtenStyle, Scalar.render, h] using Written.double
  | singleQuoted =>
    by_cases h : text.any isControl = true
    · simpa [writtenStyle, Scalar.render, h] using Written.double
    · simpa [writtenStyle, Scalar.render, h] using Written.single (by simpa using h)
  | doubleQuoted => exact Written.double

theorem Written.exists_cons {text written : List Char} {style : ScalarStyle}
    (h : Written text written style) :
    ∃ first rest, written = first :: rest ∧ isBlank first = false ∧
      (first = '"' ∨ first = '\'' ∨ first ∉ Scalar.indicators) := by
  cases h with
  | plain hplain =>
    obtain ⟨first, rest, rfl⟩ := List.exists_cons_of_ne_nil hplain.ne_nil
    exact ⟨first, rest, rfl, hplain.startsClean first rfl, .inr (.inr (hplain.notIndicated first rfl))⟩
  | single => exact ⟨'\'', _, rfl, by decide, .inr (.inl rfl)⟩
  | double => exact ⟨'"', _, rfl, by decide, .inl rfl⟩

/-- No indicator but a quote starts a written scalar. -/
theorem Written.head_ne {text written rest : List Char} {style : ScalarStyle} {first : Char}
    (h : Written text written style) (hwritten : written = first :: rest) {c : Char}
    (hc : c ∈ Scalar.indicators) (hdouble : c ≠ '"') (hsingle : c ≠ '\'') : first ≠ c := by
  obtain ⟨first', rest', hcons, _, hfirst⟩ := h.exists_cons
  obtain rfl : first' = first := (List.cons.inj (hcons.symm.trans hwritten)).1
  rintro rfl
  rcases hfirst with rfl | rfl | hfirst
  · exact hdouble rfl
  · exact hsingle rfl
  · exact hfirst hc

theorem IsTrailing.head_ne {tail : List Char} (h : IsTrailing tail) : tail.head? ≠ some '\'' := by
  rcases h with rfl | ⟨rest, rfl⟩ <;> simp

/-- A scalar that starts with no quote is everything up to a comment. -/
theorem scalar_plain {text tail : List Char} (h : PlainText text) (htail : IsTrailing tail) :
    scalar (text ++ tail) = .ok ⟨text, .plain, tail⟩ := by
  obtain ⟨first, rest, rfl⟩ := List.exists_cons_of_ne_nil h.ne_nil
  have hfirst := h.notIndicated first rfl
  have hsplit : splitComment (first :: rest ++ tail) = (first :: rest, tail) := by
    apply splitComment_append h.noComment _ htail
    intro hlast
    exact absurd (h.endsClean ' ' hlast) (by decide)
  unfold scalar
  split
  · rename_i hcons
    obtain rfl : first = '"' := (List.cons.inj hcons).1
    exact absurd (by decide) hfirst
  · rename_i hcons
    obtain rfl : first = '\'' := (List.cons.inj hcons).1
    exact absurd (by decide) hfirst
  · rw [hsplit]
    rcases htail with rfl | ⟨comment, rfl⟩
    · simp
    · simp [trimEnd_eq_self h.endsClean]

theorem scalar_double (text tail : List Char) :
    scalar (Scalar.doubleQuote text ++ tail) = .ok ⟨text, .doubleQuoted, tail⟩ := by
  have hinner : scalar ('"' :: (text.flatMap Scalar.escape ++ '"' :: tail)) =
      .ok ⟨text, .doubleQuoted, tail⟩ := by
    simp only [scalar, doubleQuoted_doubleQuote]
    rfl
  simpa [Scalar.doubleQuote] using hinner

theorem scalar_single (text : List Char) {tail : List Char} (htail : tail.head? ≠ some '\'') :
    scalar (Scalar.singleQuote text ++ tail) = .ok ⟨text, .singleQuoted, tail⟩ := by
  have hinner : scalar ('\'' :: (text.flatMap (fun c ↦ if c = '\'' then ['\'', '\''] else [c]) ++
      '\'' :: tail)) = .ok ⟨text, .singleQuoted, tail⟩ := by
    simp only [scalar, singleQuoted_singleQuote text htail]
    rfl
  simpa [Scalar.singleQuote] using hinner

theorem Written.scalar_append {text written tail : List Char} {style : ScalarStyle}
    (h : Written text written style) (htail : IsTrailing tail) :
    scalar (written ++ tail) = .ok ⟨text, style, tail⟩ := by
  cases h with
  | plain hplain => exact scalar_plain hplain htail
  | single => exact scalar_single text htail.head_ne
  | double => exact scalar_double text tail

/-- A line that starts with no quote holds a key exactly when it splits at a colon. -/
theorem splitKey_of_head {first : Char} {text : List Char} (hdouble : first ≠ '"')
    (hsingle : first ≠ '\'') :
    splitKey (first :: text) =
      .ok ((splitPlainKey [] (first :: text)).map fun (key, rest) ↦ ⟨key, .plain, rest⟩) := by
  unfold splitKey
  split
  · rename_i hcons
    exact absurd (List.cons.inj hcons).1 hdouble
  · rename_i hcons
    exact absurd (List.cons.inj hcons).1 hsingle
  · rfl

/-- What follows a quoted scalar makes it a key. -/
def keyBefore (read : Scalar) : Option Scalar :=
  match trimStart read.rest with
  | ':' :: rest => if endsKey rest then some { read with rest } else none
  | _ => none

theorem splitKey_of_scalar {first : Char} {text : List Char} {read : Scalar}
    (hquote : first = '"' ∨ first = '\'') (hread : scalar (first :: text) = .ok read) :
    splitKey (first :: text) = .ok (keyBefore read) := by
  have hpure : (match trimStart read.rest with
      | ':' :: rest => pure (if endsKey rest then some { read with rest } else none)
      | _ => pure none : Except SyntaxFault (Option Scalar)) = .ok (keyBefore read) := by
    unfold keyBefore
    split <;> rfl
  unfold splitKey
  rcases hquote with rfl | rfl
  all_goals
    simp only [hread]
    exact hpure

/-- A written scalar before a separating colon is a key. -/
theorem Written.splitKey_append {text written rest : List Char} {style : ScalarStyle}
    (h : Written text written style) (hrest : endsKey rest = true) :
    splitKey (written ++ ':' :: rest) = .ok (some ⟨text, style, rest⟩) := by
  have hcolon : trimStart (':' :: rest) = ':' :: rest := trimStart_cons_of_not_blank (by decide)
  cases h with
  | plain hplain =>
    have hkey := splitPlainKey_append [] rest hplain.noComment (by simp) hplain.noSeparator
      hplain.noFinalColon hplain.ne_nil hplain.endsClean hrest
    obtain ⟨first, more, rfl⟩ := List.exists_cons_of_ne_nil hplain.ne_nil
    have hfirst := hplain.notIndicated first rfl
    rw [List.cons_append, splitKey_of_head, ← List.cons_append, hkey]
    · rfl
    · rintro rfl
      exact hfirst (by decide)
    · rintro rfl
      exact hfirst (by decide)
  | single =>
    have hread : scalar (Scalar.singleQuote text ++ ':' :: rest) =
        .ok ⟨text, .singleQuoted, ':' :: rest⟩ := scalar_single text (by simp)
    unfold Scalar.singleQuote at hread ⊢
    rw [List.cons_append, List.cons_append] at hread ⊢
    rw [splitKey_of_scalar (.inr rfl) hread]
    simp [keyBefore, hcolon, hrest]
  | double =>
    have hread := scalar_double text (':' :: rest)
    unfold Scalar.doubleQuote at hread ⊢
    rw [List.cons_append, List.cons_append] at hread ⊢
    rw [splitKey_of_scalar (.inl rfl) hread]
    simp [keyBefore, hcolon, hrest]

/-- A written scalar with nothing but a comment behind it is no key. -/
theorem Written.splitKey_eq_none {text written tail : List Char} {style : ScalarStyle}
    (h : Written text written style) (htail : IsTrailing tail) :
    splitKey (written ++ tail) = .ok none := by
  have hnot (style : ScalarStyle) : keyBefore ⟨text, style, tail⟩ = none := by
    unfold keyBefore
    rcases htail with rfl | ⟨rest, rfl⟩
    · rfl
    · simp only [trimStart_cons_of_blank (c := ' ') (by decide),
        trimStart_cons_of_not_blank (c := '#') (by decide)]
      rfl
  have hread := h.scalar_append htail
  cases h with
  | plain hplain =>
    have hkey := splitPlainKey_eq_none [] hplain.noSeparator hplain.noFinalColon htail
    obtain ⟨first, more, rfl⟩ := List.exists_cons_of_ne_nil hplain.ne_nil
    have hfirst := hplain.notIndicated first rfl
    rw [List.cons_append, splitKey_of_head, ← List.cons_append, hkey]
    · rfl
    · rintro rfl
      exact hfirst (by decide)
    · rintro rfl
      exact hfirst (by decide)
  | single =>
    unfold Scalar.singleQuote at hread ⊢
    rw [List.cons_append, List.cons_append] at hread ⊢
    rw [splitKey_of_scalar (.inr rfl) hread, hnot]
  | double =>
    unfold Scalar.doubleQuote at hread ⊢
    rw [List.cons_append, List.cons_append] at hread ⊢
    rw [splitKey_of_scalar (.inl rfl) hread, hnot]

/-! ## Written scalars stay within their line -/

theorem not_mem_escape (c : Char) : '\n' ∉ Scalar.escape c := by
  unfold Scalar.escape
  split
  all_goals try decide
  rename_i hline _ _ _
  split
  · rename_i hcontrol
    have hlt : c.toNat < 160 := by
      unfold isControl at hcontrol
      simp only [Bool.or_eq_true, decide_eq_true_eq, Bool.and_eq_true] at hcontrol
      omega
    have hdigits : ∀ n : Fin 160, '\n' ∉ '\\' :: 'u' :: Scalar.hex4 n := by decide +kernel
    exact hdigits ⟨c.toNat, hlt⟩
  · intro hmem
    exact hline (List.mem_singleton.1 hmem).symm

theorem not_mem_of_noControl {text : List Char} (h : text.any isControl = false) :
    '\n' ∉ text := by
  intro hmem
  have hcontrol : isControl '\n' = false := by simpa using List.any_eq_false.1 h '\n' hmem
  exact absurd hcontrol (by decide)

theorem clean_singleQuote {text : List Char} (h : '\n' ∉ text) : Clean (Scalar.singleQuote text) := by
  have hinner : '\n' ∉ '\'' :: text.flatMap (fun c ↦ if c = '\'' then ['\'', '\''] else [c]) := by
    intro hmem
    rcases List.mem_cons.1 hmem with hquote | hmem
    · exact absurd hquote (by decide)
    · obtain ⟨c, hc, hin⟩ := List.mem_flatMap.1 hmem
      split at hin
      · exact absurd hin (by decide)
      · exact h (List.mem_singleton.1 hin ▸ hc)
  exact Clean.append hinner ⟨by decide, endsClean_singleton (by decide)⟩ (List.cons_ne_nil _ _)

theorem Written.clean {text written : List Char} {style : ScalarStyle}
    (h : Written text written style) : Clean written := by
  cases h with
  | plain hplain => exact ⟨not_mem_of_noControl hplain.noControl, hplain.endsClean⟩
  | single hcontrol => exact clean_singleQuote (not_mem_of_noControl hcontrol)
  | double =>
    have hinner : '\n' ∉ '"' :: text.flatMap Scalar.escape := by
      intro hmem
      rcases List.mem_cons.1 hmem with h | h
      · exact absurd h (by decide)
      · obtain ⟨c, -, hin⟩ := List.mem_flatMap.1 h
        exact not_mem_escape c hin
    exact Clean.append hinner ⟨by decide, endsClean_singleton (by decide)⟩ (List.cons_ne_nil _ _)

/-! ## What is left of a line -/

theorem doubleQuoted_suffix {text value rest : List Char}
    (h : doubleQuoted text = .ok (value, rest)) : rest <:+ text := by
  fun_induction doubleQuoted text generalizing value with
  | case1 => cases h
  | case2 inner =>
    obtain ⟨-, rfl⟩ := Prod.mk.inj (Except.ok.inj h)
    exact List.suffix_cons _ _
  | case3 => cases h
  | case4 kind inner c hsimple ih =>
    obtain ⟨⟨text, tail⟩, hread, hpair⟩ := bind_eq_ok_iff.1 h
    obtain ⟨-, rfl⟩ := Prod.mk.inj (Except.ok.inj hpair)
    exact ((ih hread).trans (List.suffix_cons _ _)).trans (List.suffix_cons _ _)
  | case5 kind inner count hcount hsimple ih =>
    obtain ⟨c, -, hmore⟩ := bind_eq_ok_iff.1 h
    obtain ⟨⟨text, tail⟩, hread, hpair⟩ := bind_eq_ok_iff.1 hmore
    obtain ⟨-, rfl⟩ := Prod.mk.inj (Except.ok.inj hpair)
    have hdrop : inner.drop count <:+ inner := List.drop_suffix _ _
    exact (((ih hread).trans hdrop).trans (List.suffix_cons _ _)).trans (List.suffix_cons _ _)
  | case6 => cases h
  | case7 c inner _ _ _ ih =>
    obtain ⟨⟨text, tail⟩, hread, hpair⟩ := bind_eq_ok_iff.1 h
    obtain ⟨-, rfl⟩ := Prod.mk.inj (Except.ok.inj hpair)
    exact (ih hread).trans (List.suffix_cons _ _)

theorem singleQuoted_suffix {text value rest : List Char}
    (h : singleQuoted text = .ok (value, rest)) : rest <:+ text := by
  fun_induction singleQuoted text generalizing value with
  | case1 => cases h
  | case2 inner ih =>
    obtain ⟨⟨text, tail⟩, hread, hpair⟩ := bind_eq_ok_iff.1 h
    obtain ⟨-, rfl⟩ := Prod.mk.inj (Except.ok.inj hpair)
    exact ((ih hread).trans (List.suffix_cons _ _)).trans (List.suffix_cons _ _)
  | case3 inner =>
    obtain ⟨-, rfl⟩ := Prod.mk.inj (Except.ok.inj h)
    exact List.suffix_cons _ _
  | case4 c inner _ _ ih =>
    obtain ⟨⟨text, tail⟩, hread, hpair⟩ := bind_eq_ok_iff.1 h
    obtain ⟨-, rfl⟩ := Prod.mk.inj (Except.ok.inj hpair)
    exact (ih hread).trans (List.suffix_cons _ _)

theorem splitComment_suffix (text : List Char) : (splitComment text).2 <:+ text := by
  fun_induction splitComment text with
  | case1 => exact List.suffix_refl _
  | case2 rest => exact List.suffix_refl _
  | case3 c rest _ text tail hsplit ih =>
    rw [hsplit] at ih
    exact ih.trans (List.suffix_cons _ _)

theorem scalar_suffix {text : List Char} {read : Scalar} (h : scalar text = .ok read) :
    read.rest <:+ text := by
  unfold scalar at h
  split at h
  · obtain ⟨⟨value, rest⟩, hread, hpair⟩ := bind_eq_ok_iff.1 h
    obtain rfl := Except.ok.inj hpair
    exact (doubleQuoted_suffix hread).trans (List.suffix_cons _ _)
  · obtain ⟨⟨value, rest⟩, hread, hpair⟩ := bind_eq_ok_iff.1 h
    obtain rfl := Except.ok.inj hpair
    exact (singleQuoted_suffix hread).trans (List.suffix_cons _ _)
  · have hsuffix := splitComment_suffix text
    split at h
    · obtain rfl := Except.ok.inj h
      exact List.nil_suffix
    · rename_i value rest hsplit
      obtain rfl := Except.ok.inj h
      rw [hsplit] at hsuffix
      exact hsuffix

theorem splitPlainKey_suffix {before text key rest : List Char}
    (h : splitPlainKey before text = some (key, rest)) : rest <:+ text := by
  fun_induction splitPlainKey before text with
  | case1 => cases h
  | case2 => cases h
  | case3 => cases h
  | case4 before c more _ _ _ =>
    obtain ⟨-, rfl⟩ := Prod.mk.inj (Option.some.inj h)
    exact List.suffix_cons _ _
  | case5 before c more _ _ ih => exact (ih h).trans (List.suffix_cons _ _)

theorem splitKey_suffix {text : List Char} {key : Scalar} (h : splitKey text = .ok (some key)) :
    key.rest <:+ text := by
  have hquoted : (do
      let key ← scalar text
      match trimStart key.rest with
      | ':' :: rest => return if endsKey rest then some { key with rest } else none
      | _ => return none) = Except.ok (some key) → key.rest <:+ text := by
    intro h
    obtain ⟨read, hread, hkey⟩ := bind_eq_ok_iff.1 h
    have hsuffix := (trimStart_suffix read.rest).trans (scalar_suffix hread)
    split at hkey
    · rename_i rest hrest
      rw [hrest] at hsuffix
      split at hkey
      · obtain rfl := Option.some.inj (Except.ok.inj hkey)
        exact (List.suffix_cons _ _).trans hsuffix
      · cases Except.ok.inj hkey
    · cases Except.ok.inj hkey
  unfold splitKey at h
  split at h
  · exact hquoted h
  · exact hquoted h
  · obtain ⟨⟨key', rest⟩, hsplit, hkey⟩ := Option.map_eq_some_iff.1 (Except.ok.inj h)
    obtain rfl := hkey
    exact splitPlainKey_suffix hsplit

theorem itemBody?_suffix {text body : List Char} (h : itemBody? text = some body) :
    body <:+ text := by
  unfold itemBody? at h
  split at h
  · obtain rfl := Option.some.inj h
    exact List.nil_suffix
  · obtain rfl := Option.some.inj h
    have hdrop := List.dropWhile_suffix (l := ‹List Char›) (· == ' ')
    exact (hdrop.trans (List.suffix_cons _ _)).trans (List.suffix_cons _ _)
  · cases h

/-! ## Items -/

theorem isItem_of_head_ne {first : Char} (rest : List Char) (h : first ≠ '-') :
    isItem (first :: rest) = false := by
  unfold isItem itemBody?
  split
  · rename_i hline
    exact absurd (List.cons.inj hline).1 h
  · rename_i hline
    exact absurd (List.cons.inj hline).1 h
  · rfl

/-- Behind a dash and one space, an item goes on with its first character that is no space. -/
theorem itemBody?_dash {first : Char} (rest : List Char) (h : isBlank first = false) :
    itemBody? ('-' :: ' ' :: first :: rest) = some (first :: rest) := by
  have hspace : ¬ (first == ' ') = true := by
    rintro hfirst
    rw [beq_iff_eq.1 hfirst] at h
    exact absurd h (by decide)
  exact congrArg some (List.dropWhile_cons_of_neg hspace)

end LayeredConfig.Inline
