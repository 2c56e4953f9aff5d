import LayeredConfig.Proofs.Document.Writable

/-!
# The steps of the reader

Each part of the reader is described by the ways in which it can succeed: which line comes next,
what is read from it, and which parts go on with the lines behind it. What is read from tidy
lines can be written.
-/

namespace LayeredConfig.Reader

open Text Inline

/-- A part of the reader succeeds with a value and leaves these lines behind. -/
def Reads {α : Type} {bound : Nat} (result : Except SyntaxError (Parsed α bound)) (value : α)
    (rest : Source) : Prop :=
  ∃ parsed, result = .ok parsed ∧ parsed.value = value ∧ parsed.rest = rest

/-- The next line of content stands further left than `indent`, or there is none. -/
def Closes (indent : Nat) (src : Source) : Prop :=
  ∀ step ∈ next? src, step.indent < indent

theorem Closes.mono {indent indent' : Nat} {src : Source} (h : Closes indent src)
    (hle : indent ≤ indent') : Closes indent' src :=
  fun step hstep ↦ Nat.lt_of_lt_of_le (h step hstep) hle

/-! ## The next line of content -/

/-- The next line of content is the first one, or it comes behind a comment. -/
@[elab_as_elim]
theorem next?_some_induction {motive : ∀ src step, next? src = some step → Prop}
    (content : ∀ number indent text rest,
      motive ((number, .content indent text) :: rest) ⟨[], number, indent, text, rest⟩ rfl)
    (comment : ∀ number indent text rest step (h : next? rest = some step), motive rest step h →
      motive ((number, .comment indent text) :: rest)
        { step with comments := String.ofList text :: step.comments } (by rw [next?, h]; rfl))
    {src : Source} {step : Step} (h : next? src = some step) : motive src step h := by
  induction src generalizing step with
  | nil => cases h
  | cons first rest ih =>
    obtain ⟨number, line⟩ := first
    cases line with
    | comment indent text =>
      obtain ⟨inner, hinner, rfl⟩ := Option.map_eq_some_iff.1 h
      exact comment number indent text rest inner hinner (ih hinner)
    | content indent text =>
      obtain rfl := Option.some.inj h
      exact content number indent text rest

/-- Lines without content are comments. -/
@[elab_as_elim]
theorem next?_none_induction {motive : ∀ src, next? src = none → Prop} (nil : motive [] rfl)
    (comment : ∀ number indent text rest (h : next? rest = none), motive rest h →
      motive ((number, .comment indent text) :: rest) (by rw [next?, h]; rfl))
    {src : Source} (h : next? src = none) : motive src h := by
  induction src with
  | nil => exact nil
  | cons first rest ih =>
    obtain ⟨number, line⟩ := first
    cases line with
    | comment indent text =>
      have hrest := Option.map_eq_none_iff.1 h
      exact comment number indent text rest hrest (ih hrest)
    | content indent text => cases h

/-! ## Equations -/

section

variable {indent : Nat} {src : Source}

theorem weight_rest_le {step : Step} (h : next? src = some step) : weight step.rest ≤ weight src :=
  Nat.le_trans (Nat.le_add_right _ _) (Nat.le_of_lt (weight_of_next? h))

theorem entries_of_none (h : next? src = none) :
    entries indent src = .ok ⟨[], src, Nat.le_refl _⟩ := by
  unfold entries
  split
  · rfl
  · rename_i step hstep
    rw [h] at hstep
    cases hstep

theorem entries_of_next? {step : Step} (h : next? src = some step) :
    entries indent src =
      if step.indent < indent then .ok ⟨[], src, Nat.le_refl _⟩
      else if indent < step.indent then .error ⟨step.number, .unexpectedIndentation⟩
      else if isItem step.text then .error ⟨step.number, .itemAmongKeys⟩
      else do
        match ← onLine step.number (splitKey step.text) with
        | none => .error ⟨step.number, .missingKey⟩
        | some key =>
          let ⟨(tree, comment), rest, hle⟩ ←
            value indent (trimStart key.rest) step.number step.rest
          let ⟨more, rest', hle'⟩ ← entries indent rest
          let key := .scalar ⟨step.comments, comment, []⟩ (String.ofList key.text) key.style
          return ⟨(key, tree) :: more, rest',
            Nat.le_trans hle' (Nat.le_trans hle (weight_rest_le h))⟩ := by
  rw [entries]
  split
  · rename_i hstep
    rw [h] at hstep
    cases hstep
  · rename_i step' hstep
    obtain rfl := Option.some.inj (h.symm.trans hstep)
    rfl

theorem items_of_none (h : next? src = none) :
    items indent src = .ok ⟨[], src, Nat.le_refl _⟩ := by
  unfold items
  split
  · rfl
  · rename_i step hstep
    rw [h] at hstep
    cases hstep

theorem items_of_no_dash {step : Step} (h : next? src = some step)
    (hbody : itemBody? step.text = none) :
    items indent src =
      if step.indent < indent then .ok ⟨[], src, Nat.le_refl _⟩
      else if indent < step.indent then .error ⟨step.number, .unexpectedIndentation⟩
      else .ok ⟨[], src, Nat.le_refl _⟩ := by
  rw [items]
  split
  · rename_i hstep
    rw [h] at hstep
    cases hstep
  · rename_i step' hstep
    obtain rfl := Option.some.inj (h.symm.trans hstep)
    split
    · rfl
    · split
      · rfl
      · rename_i hdash
        rw [hbody] at hdash
        cases hdash

theorem items_of_dash {step : Step} {body : List Char} (h : next? src = some step)
    (hbody : itemBody? step.text = some body) :
    items indent src =
      if step.indent < indent then .ok ⟨[], src, Nat.le_refl _⟩
      else if indent < step.indent then .error ⟨step.number, .unexpectedIndentation⟩
      else do
        let ⟨tree, rest, hle⟩ ← item indent step body (length_of_itemBody? hbody)
        let ⟨more, rest', hle'⟩ ← items indent rest
        return ⟨tree.withHead step.comments :: more, rest',
          Nat.le_trans hle' (Nat.le_trans hle (Nat.le_of_lt (weight_of_next? h)))⟩ := by
  rw [items]
  split
  · rename_i hstep
    rw [h] at hstep
    cases hstep
  · rename_i step' hstep
    obtain rfl := Option.some.inj (h.symm.trans hstep)
    split
    · rfl
    · split
      · rename_i hnone
        rw [hbody] at hnone
        cases hnone
      · rename_i body' hdash
        obtain rfl := Option.some.inj (hbody.symm.trans hdash)
        rfl

end

section Steps

variable {indent : Nat} {src : Source} {step : Step}

/-! ## Entries and values -/

theorem entries_nil (h : Closes indent src) : Reads (entries indent src) [] src := by
  cases hnext : next? src with
  | none => exact ⟨_, entries_of_none hnext, rfl, rfl⟩
  | some step =>
    rw [entries_of_next? hnext, if_pos (h step hnext)]
    exact ⟨_, rfl, rfl, rfl⟩

theorem entries_cons {key : Scalar} {tree : Tree} {comment : Option String} {rest rest' : Source}
    {more : List (Tree × Tree)} (hnext : next? src = some step) (hindent : step.indent = indent)
    (hitem : isItem step.text = false) (hkey : splitKey step.text = .ok (some key))
    (hvalue : Reads (value indent (trimStart key.rest) step.number step.rest) (tree, comment) rest)
    (hmore : Reads (entries indent rest) more rest') :
    Reads (entries indent src)
      ((.scalar ⟨step.comments, comment, []⟩ (String.ofList key.text) key.style, tree) :: more)
      rest' := by
  obtain ⟨⟨_, _, hle⟩, hvalue, rfl, rfl⟩ := hvalue
  obtain ⟨⟨_, _, hle'⟩, hmore, rfl, rfl⟩ := hmore
  have hkey' : onLine step.number (splitKey step.text) = .ok (some key) := by
    rw [onLine, hkey]
    rfl
  rw [entries_of_next? hnext, if_neg (by omega), if_neg (by omega), if_neg (by simp [hitem])]
  simp only [hkey', ok_bind, hvalue, hmore]
  exact ⟨_, rfl, rfl, rfl⟩

theorem value_inline {text : List Char} {number : Nat} {read : Commented}
    (hplace : placement text = .inline) (hread : inlineValue text = .ok read) :
    Reads (value indent text number src) read src := by
  have hread' : onLine number (inlineValue text) = .ok read := by
    rw [onLine, hread]
    rfl
  unfold Reads value
  simp only [hplace, hread', ok_bind]
  exact ⟨_, rfl, rfl, rfl⟩

/-- Below its key a value is read like any nested block, unless an item lines up with the key. -/
theorem value_nested {text : List Char} {number : Nat} {comment : Option String} {tree : Tree}
    {rest : Source} (hplace : placement text = .below comment)
    (hitem : ∀ step ∈ next? src, step.indent = indent → isItem step.text = false)
    (htree : Reads (nested indent src) tree rest) :
    Reads (value indent text number src) (tree, comment) rest := by
  obtain ⟨⟨_, _, hle⟩, htree, rfl, rfl⟩ := htree
  unfold Reads value
  simp only [hplace]
  split
  · rename_i step hstep
    split
    · rename_i hdash
      rw [Bool.and_eq_true, decide_eq_true_eq] at hdash
      have hlt : indent < step.indent := by
        apply Nat.lt_of_le_of_ne hdash.2
        intro heq
        rw [hitem step hstep heq.symm] at hdash
        exact Bool.false_ne_true hdash.1
      unfold nested at htree
      simp only [hstep, if_neg (Nat.not_le_of_lt hlt), hdash.1, if_true] at htree
      obtain ⟨⟨found, rest, hle'⟩, hitems, hread⟩ := bind_eq_ok_iff.1 htree
      obtain ⟨rfl, rfl⟩ := Parsed.mk.inj (Except.ok.inj hread)
      simp only [hitems, ok_bind]
      exact ⟨_, rfl, rfl, rfl⟩
    · simp only [htree, ok_bind]
      exact ⟨_, rfl, rfl, rfl⟩
  · rename_i hnone
    unfold nested at htree
    simp only [hnone] at htree
    obtain ⟨rfl, rfl⟩ := Parsed.mk.inj (Except.ok.inj htree)
    exact ⟨_, rfl, rfl, rfl⟩

/-- Below its key a sequence may stand right under the key. -/
theorem value_items {text : List Char} {number : Nat} {comment : Option String}
    {found : List Tree} {rest : Source} (hplace : placement text = .below comment)
    (hnext : next? src = some step) (hitem : isItem step.text = true) (hindent : indent ≤ step.indent)
    (hitems : Reads (items step.indent src) found rest) :
    Reads (value indent text number src) (.sequence {} found, comment) rest := by
  obtain ⟨⟨_, _, hle⟩, hitems, rfl, rfl⟩ := hitems
  unfold Reads value
  simp only [hplace, hnext, hitem, decide_eq_true hindent, Bool.and_self, if_true, hitems, ok_bind]
  exact ⟨_, rfl, rfl, rfl⟩

/-! ## Nested blocks -/

theorem nested_empty (h : Closes (indent + 1) src) : Reads (nested indent src) emptyScalar src := by
  unfold Reads nested
  split
  · rename_i step hstep
    have hle : step.indent ≤ indent := Nat.le_of_lt_succ (h step hstep)
    rw [if_pos hle]
    exact ⟨_, rfl, rfl, rfl⟩
  · exact ⟨_, rfl, rfl, rfl⟩

theorem nested_items {found : List Tree} {rest : Source} (hnext : next? src = some step)
    (hindent : indent < step.indent) (hitem : isItem step.text = true)
    (hitems : Reads (items step.indent src) found rest) :
    Reads (nested indent src) (.sequence {} found) rest := by
  obtain ⟨⟨_, _, hle⟩, hitems, rfl, rfl⟩ := hitems
  unfold Reads nested
  simp only [hnext, if_neg (Nat.not_le_of_lt hindent), hitem, if_true, hitems, ok_bind]
  exact ⟨_, rfl, rfl, rfl⟩

theorem nested_entries {found : List (Tree × Tree)} {rest : Source}
    (hnext : next? src = some step) (hindent : indent < step.indent)
    (hitem : isItem step.text = false) (hentries : Reads (entries step.indent src) found rest) :
    Reads (nested indent src) (.mapping {} found) rest := by
  obtain ⟨⟨_, _, hle⟩, hentries, rfl, rfl⟩ := hentries
  unfold Reads nested
  simp only [hnext, if_neg (Nat.not_le_of_lt hindent), hitem, hentries, ok_bind]
  exact ⟨_, rfl, rfl, rfl⟩

/-! ## Items -/

theorem items_nil (h : Closes indent src) : Reads (items indent src) [] src := by
  cases hnext : next? src with
  | none => exact ⟨_, items_of_none hnext, rfl, rfl⟩
  | some step =>
    cases hbody : itemBody? step.text with
    | none =>
      rw [items_of_no_dash hnext hbody, if_pos (h step hnext)]
      exact ⟨_, rfl, rfl, rfl⟩
    | some body =>
      rw [items_of_dash hnext hbody, if_pos (h step hnext)]
      exact ⟨_, rfl, rfl, rfl⟩

theorem items_cons {body : List Char} {t : Tree} {rest rest' : Source} {more : List Tree}
    (hnext : next? src = some step) (hindent : step.indent = indent)
    (hbody : itemBody? step.text = some body)
    (hitem : Reads (item indent step body (length_of_itemBody? hbody)) t rest)
    (hmore : Reads (items indent rest) more rest') :
    Reads (items indent src) (t.withHead step.comments :: more) rest' := by
  obtain ⟨⟨_, _, hle⟩, hitem, rfl, rfl⟩ := hitem
  obtain ⟨⟨_, _, hle'⟩, hmore, rfl, rfl⟩ := hmore
  rw [items_of_dash hnext hbody, if_neg (by omega), if_neg (by omega)]
  simp only [hitem, ok_bind, hmore]
  exact ⟨_, rfl, rfl, rfl⟩

theorem item_below {body : List Char} {h : body.length < step.text.length}
    {comment : Option String} {tree : Tree} {rest : Source}
    (hplace : placement body = .below comment) (htree : Reads (nested indent step.rest) tree rest) :
    Reads (item indent step body h) (tree.withLine comment) rest := by
  obtain ⟨⟨_, _, hle⟩, htree, rfl, rfl⟩ := htree
  have hstart : onLine step.number (itemStart body) = .ok (.below comment) := by
    rw [onLine, itemStart, hplace]
    rfl
  unfold Reads item
  simp only [hstart, ok_bind, htree]
  exact ⟨_, rfl, rfl, rfl⟩

theorem item_key {body : List Char} {h : body.length < step.text.length} {key : Scalar}
    {column : Nat} {found : List (Tree × Tree)} {rest : Source} (hplace : placement body = .inline)
    (hitem : isItem body = false) (hkey : splitKey body = .ok (some key))
    (hcolumn : indent + (step.text.length - body.length) = column)
    (hentries : Reads (entries column ((step.number, .content column body) :: step.rest))
      found rest) :
    Reads (item indent step body h) (.mapping {} found) rest := by
  subst hcolumn
  obtain ⟨⟨_, _, hle⟩, hentries, rfl, rfl⟩ := hentries
  have hstart : onLine step.number (itemStart body) = .ok .key := by
    rw [onLine, itemStart, hplace]
    simp only [hitem, hkey, ok_bind]
    rfl
  unfold Reads item
  simp only [hstart, ok_bind, hentries]
  exact ⟨_, rfl, rfl, rfl⟩

theorem item_inline {body : List Char} {h : body.length < step.text.length} {tree : Tree}
    {comment : Option String} (hplace : placement body = .inline) (hitem : isItem body = false)
    (hkey : splitKey body = .ok none) (hread : inlineValue body = .ok (tree, comment)) :
    Reads (item indent step body h) (tree.withLine comment) step.rest := by
  have hstart : onLine step.number (itemStart body) = .ok (.inline (tree, comment)) := by
    rw [onLine, itemStart, hplace]
    simp only [hitem, hkey, ok_bind, hread]
    rfl
  unfold Reads item
  simp only [hstart, ok_bind]
  exact ⟨_, rfl, rfl, rfl⟩

end Steps

/-! ## The ways to succeed -/

section Success

variable {indent : Nat} {src : Source}

/-- Either no key comes next, or a key is read with its value and the entries behind it. -/
theorem entries_eq_ok {parsed : Parsed (List (Tree × Tree)) (weight src)}
    (h : entries indent src = .ok parsed) :
    (parsed.value = [] ∧ parsed.rest = src) ∨
      ∃ step key, ∃ first : Parsed Commented (weight step.rest),
        ∃ more : Parsed (List (Tree × Tree)) (weight first.rest),
          next? src = some step ∧ isItem step.text = false ∧
            splitKey step.text = .ok (some key) ∧
            value indent (trimStart key.rest) step.number step.rest = .ok first ∧
            entries indent first.rest = .ok more ∧
            parsed.value = (.scalar ⟨step.comments, first.value.2, []⟩ (String.ofList key.text)
              key.style, first.value.1) :: more.value ∧
            parsed.rest = more.rest := by
  unfold entries at h
  split at h
  · obtain rfl := Except.ok.inj h
    exact .inl ⟨rfl, rfl⟩
  · rename_i step hstep
    split at h
    · obtain rfl := Except.ok.inj h
      exact .inl ⟨rfl, rfl⟩
    split at h
    · cases h
    split at h
    · cases h
    rename_i hitem
    obtain ⟨found, hfound, h⟩ := bind_eq_ok_iff.1 h
    split at h
    · cases h
    rename_i key
    obtain ⟨first, hvalue, h⟩ := bind_eq_ok_iff.1 h
    obtain ⟨more, hmore, h⟩ := bind_eq_ok_iff.1 h
    obtain rfl := Except.ok.inj h
    exact .inr ⟨step, key, first, more, hstep, by simpa using hitem, mapError_eq_ok_iff.1 hfound,
      hvalue, hmore, rfl, rfl⟩

/-- A value stands on its line, or it is a sequence or a nested block below. -/
theorem value_eq_ok {text : List Char} {number : Nat} {parsed : Parsed Commented (weight src)}
    (h : value indent text number src = .ok parsed) :
    (placement text = .inline ∧ inlineValue text = .ok parsed.value ∧ parsed.rest = src) ∨
      ∃ comment, placement text = .below comment ∧
        ((∃ column, ∃ found : Parsed (List Tree) (weight src), items column src = .ok found ∧
            parsed.value = (.sequence {} found.value, comment) ∧ parsed.rest = found.rest) ∨
          ∃ found : Parsed Tree (weight src), nested indent src = .ok found ∧
            parsed.value = (found.value, comment) ∧ parsed.rest = found.rest) := by
  unfold value at h
  split at h
  · rename_i hplace
    obtain ⟨read, hread, h⟩ := bind_eq_ok_iff.1 h
    obtain rfl := Except.ok.inj h
    exact .inl ⟨hplace, mapError_eq_ok_iff.1 hread, rfl⟩
  · rename_i comment hplace
    refine .inr ⟨comment, hplace, ?_⟩
    split at h
    · rename_i step hstep
      split at h
      · obtain ⟨found, hitems, h⟩ := bind_eq_ok_iff.1 h
        obtain rfl := Except.ok.inj h
        exact .inl ⟨step.indent, found, hitems, rfl, rfl⟩
      · obtain ⟨found, hnested, h⟩ := bind_eq_ok_iff.1 h
        obtain rfl := Except.ok.inj h
        exact .inr ⟨found, hnested, rfl, rfl⟩
    · rename_i hnone
      obtain rfl := Except.ok.inj h
      refine .inr ⟨⟨emptyScalar, src, Nat.le_refl _⟩, ?_, rfl, rfl⟩
      unfold nested
      simp only [hnone]

theorem nested_eq_ok {parsed : Parsed Tree (weight src)} (h : nested indent src = .ok parsed) :
    (parsed.value = emptyScalar ∧ parsed.rest = src) ∨
      (∃ column, ∃ found : Parsed (List Tree) (weight src), items column src = .ok found ∧
        parsed.value = .sequence {} found.value ∧ parsed.rest = found.rest) ∨
      ∃ column, ∃ found : Parsed (List (Tree × Tree)) (weight src),
        entries column src = .ok found ∧ parsed.value = .mapping {} found.value ∧
          parsed.rest = found.rest := by
  unfold nested at h
  split at h
  · rename_i step hstep
    split at h
    · obtain rfl := Except.ok.inj h
      exact .inl ⟨rfl, rfl⟩
    split at h
    · obtain ⟨found, hitems, h⟩ := bind_eq_ok_iff.1 h
      obtain rfl := Except.ok.inj h
      exact .inr (.inl ⟨step.indent, found, hitems, rfl, rfl⟩)
    · obtain ⟨found, hentries, h⟩ := bind_eq_ok_iff.1 h
      obtain rfl := Except.ok.inj h
      exact .inr (.inr ⟨step.indent, found, hentries, rfl, rfl⟩)
  · obtain rfl := Except.ok.inj h
    exact .inl ⟨rfl, rfl⟩

/-- Either no dash comes next, or an item is read with the items behind it. -/
theorem items_eq_ok {parsed : Parsed (List Tree) (weight src)}
    (h : items indent src = .ok parsed) :
    (parsed.value = [] ∧ parsed.rest = src) ∨
      ∃ step body, ∃ hbody : itemBody? step.text = some body,
        ∃ first : Parsed Tree (weight step.rest + 2 * step.text.length),
          ∃ more : Parsed (List Tree) (weight first.rest),
            next? src = some step ∧
              item indent step body (length_of_itemBody? hbody) = .ok first ∧
              items indent first.rest = .ok more ∧
              parsed.value = first.value.withHead step.comments :: more.value ∧
              parsed.rest = more.rest := by
  unfold items at h
  split at h
  · obtain rfl := Except.ok.inj h
    exact .inl ⟨rfl, rfl⟩
  · rename_i step hstep
    split at h
    · obtain rfl := Except.ok.inj h
      exact .inl ⟨rfl, rfl⟩
    split at h
    · split at h
      · cases h
      · obtain rfl := Except.ok.inj h
        exact .inl ⟨rfl, rfl⟩
    · rename_i body hbody
      split at h
      · cases h
      obtain ⟨first, hitem, h⟩ := bind_eq_ok_iff.1 h
      obtain ⟨more, hmore, h⟩ := bind_eq_ok_iff.1 h
      obtain rfl := Except.ok.inj h
      exact .inr ⟨step, body, hbody, first, more, hstep, hitem, hmore, rfl, rfl⟩

/-- An item is a block below its dash, a mapping whose first key stands behind it, or a value on
its line. -/
theorem item_eq_ok {step : Step} {body : List Char} {hbody : body.length < step.text.length}
    {parsed : Parsed Tree (weight step.rest + 2 * step.text.length)}
    (h : item indent step body hbody = .ok parsed) :
    (∃ comment, ∃ found : Parsed Tree (weight step.rest), placement body = .below comment ∧
        nested indent step.rest = .ok found ∧ parsed.value = found.value.withLine comment ∧
        parsed.rest = found.rest) ∨
      (∃ key column, ∃ found : Parsed (List (Tree × Tree))
            (weight ((step.number, .content column body) :: step.rest)),
          placement body = .inline ∧ isItem body = false ∧ splitKey body = .ok (some key) ∧
            entries column ((step.number, .content column body) :: step.rest) = .ok found ∧
            parsed.value = .mapping {} found.value ∧ parsed.rest = found.rest) ∨
      ∃ tree comment, placement body = .inline ∧ splitKey body = .ok none ∧
        inlineValue body = .ok (tree, comment) ∧ parsed.value = tree.withLine comment ∧
        parsed.rest = step.rest := by
  unfold item at h
  obtain ⟨start, hstart, h⟩ := bind_eq_ok_iff.1 h
  have hstart := mapError_eq_ok_iff.1 hstart
  unfold itemStart at hstart
  split at hstart
  · rename_i comment hplace
    obtain rfl := Except.ok.inj hstart
    obtain ⟨found, hnested, h⟩ := bind_eq_ok_iff.1 h
    obtain rfl := Except.ok.inj h
    exact .inl ⟨comment, found, hplace, hnested, rfl, rfl⟩
  · rename_i hplace
    split at hstart
    · cases hstart
    rename_i hitem
    obtain ⟨key?, hkey, hstart⟩ := bind_eq_ok_iff.1 hstart
    split at hstart
    · rename_i key
      obtain rfl := Except.ok.inj hstart
      obtain ⟨found, hentries, h⟩ := bind_eq_ok_iff.1 h
      obtain rfl := Except.ok.inj h
      exact .inr (.inl ⟨key, _, found, hplace, by simpa using hitem, hkey, hentries, rfl, rfl⟩)
    · obtain ⟨⟨tree, comment⟩, hread, hstart⟩ := bind_eq_ok_iff.1 hstart
      obtain rfl := Except.ok.inj hstart
      obtain rfl := Except.ok.inj h
      exact .inr (.inr ⟨tree, comment, hplace, hkey, hread, rfl, rfl⟩)

end Success

/-! ## What is read can be written -/

theorem tidy_of_next? {src : Source} {step : Step} (hsrc : Tidy src) (h : next? src = some step) :
    (∀ text ∈ step.comments, IsCommentLine text.toList) ∧ Clean step.text ∧ Tidy step.rest := by
  induction h using next?_some_induction with
  | content number indent text rest =>
    obtain ⟨hline, hrest⟩ := List.forall_mem_cons.1 hsrc
    cases hline with
    | content hclean => exact ⟨List.forall_mem_nil _, hclean, hrest⟩
  | comment number indent text rest step h ih =>
    obtain ⟨hline, hrest⟩ := List.forall_mem_cons.1 hsrc
    obtain ⟨hcomments, hclean, htidy⟩ := ih hrest
    cases hline with
    | comment htext =>
      exact ⟨List.forall_mem_cons.2 ⟨by rwa [String.toList_ofList], hcomments⟩, hclean, htidy⟩

theorem isCommentLine_of_mem_leadingComments {src : Source} (hsrc : Tidy src) :
    ∀ text ∈ leadingComments src, IsCommentLine text.toList := by
  induction src with
  | nil => exact List.forall_mem_nil _
  | cons first rest ih =>
    obtain ⟨number, line⟩ := first
    have hrest : Tidy rest := fun other hmem ↦ hsrc other (List.mem_cons_of_mem _ hmem)
    have hline : line.Tidy := hsrc _ List.mem_cons_self
    cases hline with
    | comment htext =>
      rw [leadingComments, List.forall_mem_cons]
      exact ⟨by rwa [String.toList_ofList], ih hrest⟩
    | content hclean => exact List.forall_mem_nil _

theorem isRemark_of_trailingComment {tail : List Char} {comment : Option String}
    (htail : Clean tail) (h : trailingComment tail = .ok comment) :
    ∀ text ∈ comment, IsRemark text.toList := by
  have hclean := htail.suffix (trimStart_suffix tail)
  intro text htext
  unfold trailingComment at h
  split at h
  · obtain rfl := Except.ok.inj h
    cases htext
  · rename_i rest hrest
    obtain rfl := Except.ok.inj h
    obtain rfl := Option.some.inj htext
    rw [hrest] at hclean
    rw [String.toList_ofList]
    exact ⟨hclean, rest, rfl⟩
  · cases h

theorem isRemark_of_placement {text : List Char} {comment : Option String} (htext : Clean text)
    (h : placement text = .below comment) : ∀ remark ∈ comment, IsRemark remark.toList := by
  intro remark hremark
  unfold placement at h
  split at h
  · obtain rfl := Placement.below.inj h
    cases hremark
  · rename_i rest
    obtain rfl := Placement.below.inj h
    obtain rfl := Option.some.inj hremark
    rw [String.toList_ofList]
    exact ⟨htext, rest, rfl⟩
  · cases h

theorem writable_of_inlineValue {text : List Char} {tree : Tree} {comment : Option String}
    (htext : Clean text) (h : inlineValue text = .ok (tree, comment)) :
    tree.Writable ∧ ∀ remark ∈ comment, IsRemark remark.toList := by
  unfold inlineValue at h
  split at h
  case h_1 tail =>
    obtain ⟨remark, hremark, hread⟩ := bind_eq_ok_iff.1 h
    obtain ⟨rfl, rfl⟩ := Prod.mk.inj (Except.ok.inj hread)
    have hsuffix : tail <:+ '\x7b' :: '\x7d' :: tail := ⟨['\x7b', '\x7d'], rfl⟩
    exact ⟨.mapping Comments.inner_none (List.forall_mem_nil _)
      (List.forall_mem_nil _), isRemark_of_trailingComment (htext.suffix hsuffix) hremark⟩
  case h_3 tail =>
    obtain ⟨remark, hremark, hread⟩ := bind_eq_ok_iff.1 h
    obtain ⟨rfl, rfl⟩ := Prod.mk.inj (Except.ok.inj hread)
    have hsuffix : tail <:+ '[' :: ']' :: tail := ⟨['[', ']'], rfl⟩
    exact ⟨.sequence Comments.inner_none (List.forall_mem_nil _),
      isRemark_of_trailingComment (htext.suffix hsuffix) hremark⟩
  case h_10 =>
    obtain ⟨read, hscalar, hmore⟩ := bind_eq_ok_iff.1 h
    obtain ⟨remark, hremark, hread⟩ := bind_eq_ok_iff.1 hmore
    obtain ⟨rfl, rfl⟩ := Prod.mk.inj (Except.ok.inj hread)
    exact ⟨.scalar Comments.inner_none,
      isRemark_of_trailingComment (htext.suffix (scalar_suffix hscalar)) hremark⟩
  all_goals cases h

theorem writable_withHead {t : Tree} {lines : List String} (ht : t.Writable)
    (hlines : ∀ text ∈ lines, IsCommentLine text.toList) : (t.withHead lines).Writable := by
  cases ht with
  | scalar hc => exact .scalar ⟨⟨hlines, hc.line, hc.foot⟩, hc.footless⟩
  | mapping hc hkeys hvalues =>
    exact .mapping ⟨⟨hlines, hc.line, hc.foot⟩, hc.footless⟩ hkeys hvalues
  | sequence hc hitems => exact .sequence ⟨⟨hlines, hc.line, hc.foot⟩, hc.footless⟩ hitems

theorem writable_withLine {t : Tree} {comment : Option String} (ht : t.Writable)
    (hcomment : ∀ text ∈ comment, IsRemark text.toList) : (t.withLine comment).Writable := by
  cases ht with
  | scalar hc => exact .scalar ⟨⟨hc.head, hcomment, hc.foot⟩, hc.footless⟩
  | mapping hc hkeys hvalues =>
    exact .mapping ⟨⟨hc.head, hcomment, hc.foot⟩, hc.footless⟩ hkeys hvalues
  | sequence hc hitems => exact .sequence ⟨⟨hc.head, hcomment, hc.foot⟩, hc.footless⟩ hitems

theorem writable_emptyScalar : emptyScalar.Writable :=
  .scalar Comments.inner_none

mutual

theorem writable_of_entries {indent : Nat} {src : Source}
    {parsed : Parsed (List (Tree × Tree)) (weight src)} (hsrc : Tidy src)
    (h : entries indent src = .ok parsed) :
    (∀ entry ∈ parsed.value, entry.1.IsKey) ∧ (∀ entry ∈ parsed.value, entry.2.Writable) ∧
      Tidy parsed.rest := by
  rcases entries_eq_ok h with ⟨hnil, hrest⟩ |
    ⟨step, key, first, more, hnext, -, hkey, hvalue, hmore, hcons, hrest⟩
  · rw [hnil, hrest]
    exact ⟨List.forall_mem_nil _, List.forall_mem_nil _, hsrc⟩
  · obtain ⟨hcomments, hclean, hbehind⟩ := tidy_of_next? hsrc hnext
    have hlt := weight_of_next? hnext
    have hle := first.le
    have htext := hclean.suffix ((trimStart_suffix _).trans (splitKey_suffix hkey))
    obtain ⟨htree, hcomment, htidy⟩ := writable_of_value hbehind htext hvalue
    obtain ⟨hkeys, hvalues, htidy'⟩ := writable_of_entries htidy hmore
    rw [hcons, hrest, List.forall_mem_cons, List.forall_mem_cons]
    exact ⟨⟨.scalar (Comments.inner_mk hcomments hcomment), hkeys⟩, ⟨htree, hvalues⟩, htidy'⟩
termination_by (weight src, 0)

theorem writable_of_value {indent : Nat} {text : List Char} {number : Nat} {src : Source}
    {parsed : Parsed Commented (weight src)} (hsrc : Tidy src) (htext : Clean text)
    (h : value indent text number src = .ok parsed) :
    parsed.value.1.Writable ∧ (∀ remark ∈ parsed.value.2, IsRemark remark.toList) ∧
      Tidy parsed.rest := by
  rcases value_eq_ok h with ⟨-, hread, hrest⟩ | ⟨comment, hplace, hbelow⟩
  · obtain ⟨htree, hcomment⟩ := writable_of_inlineValue htext hread
    rw [hrest]
    exact ⟨htree, hcomment, hsrc⟩
  · have hcomment := isRemark_of_placement htext hplace
    rcases hbelow with ⟨column, found, hitems, hvalue, hrest⟩ | ⟨found, hnested, hvalue, hrest⟩
    · obtain ⟨hfound, htidy⟩ := writable_of_items hsrc hitems
      rw [hvalue, hrest]
      exact ⟨.sequence Comments.inner_none hfound, hcomment, htidy⟩
    · obtain ⟨hfound, htidy⟩ := writable_of_nested hsrc hnested
      rw [hvalue, hrest]
      exact ⟨hfound, hcomment, htidy⟩
termination_by (weight src, 2)

theorem writable_of_nested {indent : Nat} {src : Source} {parsed : Parsed Tree (weight src)}
    (hsrc : Tidy src) (h : nested indent src = .ok parsed) :
    parsed.value.Writable ∧ Tidy parsed.rest := by
  rcases nested_eq_ok h with ⟨hempty, hrest⟩ | ⟨column, found, hitems, hvalue, hrest⟩ |
    ⟨column, found, hentries, hvalue, hrest⟩
  · rw [hempty, hrest]
    exact ⟨writable_emptyScalar, hsrc⟩
  · obtain ⟨hfound, htidy⟩ := writable_of_items hsrc hitems
    rw [hvalue, hrest]
    exact ⟨.sequence Comments.inner_none hfound, htidy⟩
  · obtain ⟨hkeys, hvalues, htidy⟩ := writable_of_entries hsrc hentries
    rw [hvalue, hrest]
    exact ⟨.mapping Comments.inner_none hkeys hvalues, htidy⟩
termination_by (weight src, 1)

theorem writable_of_items {indent : Nat} {src : Source}
    {parsed : Parsed (List Tree) (weight src)} (hsrc : Tidy src)
    (h : items indent src = .ok parsed) :
    (∀ item ∈ parsed.value, item.Writable) ∧ Tidy parsed.rest := by
  rcases items_eq_ok h with ⟨hnil, hrest⟩ |
    ⟨step, body, hbody, first, more, hnext, hitem, hmore, hcons, hrest⟩
  · rw [hnil, hrest]
    exact ⟨List.forall_mem_nil _, hsrc⟩
  · obtain ⟨hcomments, hclean, hbehind⟩ := tidy_of_next? hsrc hnext
    have hlt := weight_of_next? hnext
    have hle := first.le
    obtain ⟨htree, htidy⟩ :=
      writable_of_item hbehind (hclean.suffix (itemBody?_suffix hbody)) hitem
    obtain ⟨hitems, htidy'⟩ := writable_of_items htidy hmore
    rw [hcons, hrest, List.forall_mem_cons]
    exact ⟨⟨writable_withHead htree hcomments, hitems⟩, htidy'⟩
termination_by (weight src, 0)

theorem writable_of_item {indent : Nat} {step : Step} {body : List Char}
    {hbody : body.length < step.text.length}
    {parsed : Parsed Tree (weight step.rest + 2 * step.text.length)} (hrest : Tidy step.rest)
    (hclean : Clean body) (h : item indent step body hbody = .ok parsed) :
    parsed.value.Writable ∧ Tidy parsed.rest := by
  rcases item_eq_ok h with ⟨comment, found, hplace, hnested, hvalue, hbehind⟩ |
    ⟨key, column, found, -, -, -, hentries, hvalue, hbehind⟩ |
    ⟨tree, comment, -, -, hread, hvalue, hbehind⟩
  · obtain ⟨hfound, htidy⟩ := writable_of_nested hrest hnested
    rw [hvalue, hbehind]
    exact ⟨writable_withLine hfound (isRemark_of_placement hclean hplace), htidy⟩
  · have htidy : Tidy ((step.number, .content column body) :: step.rest) := by
      intro line hline
      rcases List.mem_cons.1 hline with rfl | hline
      · exact .content hclean
      · exact hrest line hline
    obtain ⟨hkeys, hvalues, htidy'⟩ := writable_of_entries htidy hentries
    rw [hvalue, hbehind]
    exact ⟨.mapping Comments.inner_none hkeys hvalues, htidy'⟩
  · obtain ⟨htree, hcomment⟩ := writable_of_inlineValue hclean hread
    rw [hvalue, hbehind]
    exact ⟨writable_withLine htree hcomment, hrest⟩
termination_by (weight step.rest + 2 * step.text.length, 0)
decreasing_by
  · exact Prod.Lex.left _ _ (by omega)
  · exact Prod.Lex.left _ _ (by simp only [weight, lineWeight]; omega)

end

theorem eq_mapping_of_inlineValue {tail : List Char} {tree : Tree} {comment : Option String}
    (h : inlineValue ('\x7b' :: tail) = .ok (tree, comment)) : tree = .mapping {} [] := by
  unfold inlineValue at h
  split at h
  case h_1 =>
    obtain ⟨remark, -, hvalue⟩ := bind_eq_ok_iff.1 h
    exact (Prod.mk.inj (Except.ok.inj hvalue)).1.symm
  case h_2 => cases h
  case h_10 hbraces hbrace _ _ _ _ _ _ _ => exact absurd rfl (hbrace tail)
  all_goals
    rename_i hcons
    simp at hcons

theorem isFile_of_root {step : Step} {src rest : Source} {tree : Tree}
    (hsrc : Tidy src) (hnext : next? src = some step) (h : root step src = .ok (tree, rest)) :
    tree.IsFile ∧ Tidy rest := by
  obtain ⟨hcomments, hclean, hrest⟩ := tidy_of_next? hsrc hnext
  unfold root at h
  split at h
  · cases h
  split at h
  · rename_i tail htext
    obtain ⟨⟨value, comment⟩, hread, h⟩ := bind_eq_ok_iff.1 h
    obtain ⟨rfl, rfl⟩ := Prod.mk.inj (Except.ok.inj h)
    have hread := mapError_eq_ok_iff.1 hread
    obtain ⟨-, hcomment⟩ := writable_of_inlineValue hclean hread
    rw [htext] at hread
    obtain rfl := eq_mapping_of_inlineValue hread
    exact ⟨.mapping (Comments.inner_mk hcomments hcomment).toLegible
      (List.forall_mem_nil _) (List.forall_mem_nil _), hrest⟩
  · obtain ⟨parsed, hentries, h⟩ := bind_eq_ok_iff.1 h
    obtain ⟨rfl, rfl⟩ := Prod.mk.inj (Except.ok.inj h)
    obtain ⟨hkeys, hvalues, htidy⟩ := writable_of_entries hsrc hentries
    exact ⟨.mapping Comments.inner_none.toLegible hkeys hvalues, htidy⟩

/-- Whatever file was read, its tree can be written as a file. -/
theorem isFile_of_read {text : List Char} {content : Content} (h : read text = .ok content) :
    (∀ tree ∈ content.root, tree.IsFile) ∧ ∀ line ∈ content.foot, IsCommentLine line.toList := by
  unfold read at h
  obtain ⟨src, hsrc, h⟩ := bind_eq_ok_iff.1 h
  have htidy := tidy_of_text hsrc
  split at h
  · obtain rfl := Except.ok.inj h
    exact ⟨(fun _ hmem ↦ by cases hmem), isCommentLine_of_mem_leadingComments htidy⟩
  · rename_i step hstep
    obtain ⟨⟨tree, rest⟩, hroot, h⟩ := bind_eq_ok_iff.1 h
    obtain ⟨hfile, hrest⟩ := isFile_of_root htidy hstep hroot
    dsimp only at h
    split at h
    · cases h
    · obtain rfl := Except.ok.inj h
      refine ⟨?_, isCommentLine_of_mem_leadingComments hrest⟩
      rintro tree' htree
      obtain rfl := Option.some.inj htree
      exact hfile

end LayeredConfig.Reader
