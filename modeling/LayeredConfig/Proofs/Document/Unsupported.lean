import Mathlib
import LayeredConfig.Proofs.Document.Orderly
import LayeredConfig.Proofs.Document.Reader

/-!
# What is not supported is rejected

Flow collections with content, anchors, aliases, tags and block scalars begin with characters of
their own. Where a value or an item stands, a text that begins so is rejected, and no plain text
that is read there begins with such a character. A key is taken as it stands, whatever it begins
with.
-/

namespace LayeredConfig

open Text

/-! ## Marks -/

/-- The characters that begin what is not supported. -/
def marks : List Char := ['\x7b', '[', '&', '*', '!', '|', '>']

/-- Whether a text begins with something that is not supported; an empty collection is. -/
def isUnsupported : List Char → Bool
  | '\x7b' :: rest => rest.head? ≠ some '\x7d'
  | '[' :: rest => rest.head? ≠ some ']'
  | first :: _ => marks.contains first
  | [] => false

namespace Tree

/-- No plain text in the place of a value or an item begins with a mark. -/
inductive ValuesUnmarked : Tree → Prop
  | scalar {c : Comments} {text : String} {style : ScalarStyle}
      (h : style = .plain → ∀ first ∈ text.toList.head?, first ∉ marks) :
      ValuesUnmarked (.scalar c text style)
  | mapping {c : Comments} {entries : List (Tree × Tree)}
      (h : ∀ entry ∈ entries, entry.2.ValuesUnmarked) : ValuesUnmarked (.mapping c entries)
  | sequence {c : Comments} {items : List Tree} (h : ∀ item ∈ items, item.ValuesUnmarked) :
      ValuesUnmarked (.sequence c items)

theorem ValuesUnmarked.withComments {t : Tree} (h : t.ValuesUnmarked) (c : Comments) :
    (t.withComments c).ValuesUnmarked := by
  cases h with
  | scalar h => exact .scalar h
  | mapping h => exact .mapping h
  | sequence h => exact .sequence h

end Tree

namespace Reader

open Inline LayeredConfig.Tree

/-! ## Values and items in a text -/

/-- What an item is behind its dash: the value of its key, if it has one. -/
def bodyValue (body : List Char) : List Char :=
  match placement body, splitKey body with
  | .inline, .ok (some key) => trimStart key.rest
  | _, _ => body

/-- What stands in the place of a value or an item on a line. -/
def lineValue (text : List Char) : List Char :=
  bodyValue ((itemBody? text).getD text)

def lineValues : Source → List (List Char)
  | [] => []
  | (_, .comment ..) :: rest => lineValues rest
  | (_, .content _ text) :: rest => lineValue text :: lineValues rest

/-- A first line that starts with a brace holds no key but the value of the file. -/
def fileValues (src : Source) : List (List Char) :=
  match next? src with
  | some step =>
    (if step.text.head? = some '\x7b' then step.text else lineValue step.text) ::
      lineValues step.rest
  | none => []

/-- What stands in the places of values and items in a text, from top to bottom. -/
def valueTexts (text : String) : List (List Char) :=
  match sourceOf 1 (Text.lines text.toList) with
  | .ok src => fileValues src
  | .error _ => []

/-- Nothing on these lines begins with something that is not supported. -/
def Supported (src : Source) : Prop :=
  ∀ text ∈ lineValues src, isUnsupported text = false

theorem lineValues_of_next? {src : Source} {step : Step} (h : next? src = some step) :
    lineValues src = lineValue step.text :: lineValues step.rest := by
  induction h using next?_some_induction with
  | content number indent text rest => rfl
  | comment number indent text rest step h ih => exact ih

theorem lineValues_of_none {src : Source} (h : next? src = none) : lineValues src = [] := by
  induction h using next?_none_induction with
  | nil => rfl
  | comment number indent text rest h ih => exact ih

theorem supported_of_next? {src : Source} {step : Step} (h : next? src = some step)
    (htext : isUnsupported (lineValue step.text) = false) (hrest : Supported step.rest) :
    Supported src := by
  rw [Supported, lineValues_of_next? h]
  exact List.forall_mem_cons.2 ⟨htext, hrest⟩

/-! ## Values on the line of their key or dash -/

theorem isUnsupported_below {text : List Char} {comment : Option String}
    (h : placement text = .below comment) : isUnsupported text = false := by
  unfold placement at h
  split at h
  · rfl
  · rfl
  · cases h

/-- A text that begins with no mark is supported. -/
theorem isUnsupported_of_not_mark {text : List Char}
    (h : ∀ first ∈ text.head?, first ∉ marks) : isUnsupported text = false := by
  unfold isUnsupported
  split
  · exact absurd (by decide) (h _ rfl)
  · exact absurd (by decide) (h _ rfl)
  · have hfirst := h _ rfl
    simpa using hfirst
  · rfl

theorem splitComment_initial (text : List Char) : (splitComment text).1 <+: text := by
  fun_induction splitComment text with
  | case1 => exact List.prefix_refl []
  | case2 => exact List.nil_prefix
  | case3 c rest hne before after hsplit ih =>
    rw [hsplit] at ih
    exact (List.prefix_cons_inj c).2 ih

/-- A plain text is the beginning of what it was read from. -/
theorem initial_of_scalar {text : List Char} {read : Scalar} (h : Inline.scalar text = .ok read)
    (hstyle : read.style = .plain) : read.text <+: text := by
  unfold Inline.scalar at h
  split at h
  · obtain ⟨found, -, h⟩ := bind_eq_ok_iff.1 h
    obtain rfl := Except.ok.inj h
    cases hstyle
  · obtain ⟨found, -, h⟩ := bind_eq_ok_iff.1 h
    obtain rfl := Except.ok.inj h
    cases hstyle
  · split at h
    · obtain rfl := Except.ok.inj h
      exact List.prefix_refl _
    · rename_i before after _ hsplit
      obtain rfl := Except.ok.inj h
      have hinitial := splitComment_initial text
      rw [hsplit] at hinitial
      exact (trimEnd_initial before).trans hinitial

/-- What is read in the place of a value or an item begins with no mark. -/
theorem valuesUnmarked_of_inlineValue {text : List Char} {read : Commented}
    (h : inlineValue text = .ok read) : read.1.ValuesUnmarked ∧ isUnsupported text = false := by
  unfold inlineValue at h
  split at h
  case h_1 =>
    obtain ⟨comment, -, h⟩ := bind_eq_ok_iff.1 h
    obtain rfl := Except.ok.inj h
    exact ⟨.mapping (List.forall_mem_nil _), rfl⟩
  case h_3 =>
    obtain ⟨comment, -, h⟩ := bind_eq_ok_iff.1 h
    obtain rfl := Except.ok.inj h
    exact ⟨.sequence (List.forall_mem_nil _), rfl⟩
  case h_10 hbrace _ hbracket hbar hfold hanchor halias htag =>
    obtain ⟨found, hfound, h⟩ := bind_eq_ok_iff.1 h
    obtain ⟨comment, -, h⟩ := bind_eq_ok_iff.1 h
    obtain rfl := Except.ok.inj h
    have hfirst : ∀ first ∈ text.head?, first ∉ marks := by
      intro first hmem hmark
      obtain ⟨rest, rfl⟩ := List.head?_eq_some_iff.1 hmem
      simp only [marks, List.mem_cons, List.not_mem_nil, or_false] at hmark
      rcases hmark with rfl | rfl | rfl | rfl | rfl | rfl | rfl
      · exact hbrace rest rfl
      · exact hbracket rest rfl
      · exact hanchor rest rfl
      · exact halias rest rfl
      · exact htag rest rfl
      · exact hbar rest rfl
      · exact hfold rest rfl
    refine ⟨.scalar fun hstyle first hmem ↦ hfirst first ?_, isUnsupported_of_not_mark hfirst⟩
    rw [String.toList_ofList] at hmem
    obtain ⟨rest, hrest⟩ := initial_of_scalar hfound hstyle
    obtain ⟨tail, htail⟩ := List.head?_eq_some_iff.1 hmem
    rw [← hrest, htail]
    rfl
  all_goals cases h

/-! ## Blocks -/

theorem bodyValue_below {body : List Char} {comment : Option String}
    (h : placement body = .below comment) : bodyValue body = body := by
  rw [bodyValue, h]

theorem bodyValue_key {body : List Char} {key : Scalar} (hplace : placement body = .inline)
    (hkey : splitKey body = .ok (some key)) : bodyValue body = trimStart key.rest := by
  rw [bodyValue, hplace, hkey]

theorem bodyValue_inline {body : List Char} (hkey : splitKey body = .ok none) :
    bodyValue body = body := by
  rw [bodyValue, hkey]
  cases placement body <;> rfl

theorem lineValue_of_not_item {text : List Char} (h : isItem text = false) :
    lineValue text = bodyValue text := by
  rw [isItem, Option.isSome_eq_false_iff, Option.isNone_iff_eq_none] at h
  rw [lineValue, h, Option.getD_none]

/-- A line that holds a key holds the value of the key, or it is a comment. -/
theorem isUnsupported_key {text : List Char} {key : Scalar} (hitem : isItem text = false)
    (hkey : splitKey text = .ok (some key)) (hvalue : isUnsupported (trimStart key.rest) = false) :
    isUnsupported (lineValue text) = false := by
  rw [lineValue_of_not_item hitem]
  cases hplace : placement text with
  | below comment =>
    rw [bodyValue_below hplace]
    exact isUnsupported_below hplace
  | inline => rwa [bodyValue_key hplace hkey]

mutual

theorem supported_of_entries {indent : Nat} {src : Source}
    {parsed : Parsed (List (Tree × Tree)) (weight src)} (h : entries indent src = .ok parsed) :
    (∀ entry ∈ parsed.value, entry.2.ValuesUnmarked) ∧ (Supported parsed.rest → Supported src) := by
  rcases entries_eq_ok h with ⟨hnil, hrest⟩ |
    ⟨step, key, first, more, hnext, hitem, hkey, hvalue, hmore, hcons, hrest⟩
  · rw [hnil, hrest]
    exact ⟨List.forall_mem_nil _, id⟩
  · have hlt := weight_of_next? hnext
    have hle := first.le
    obtain ⟨htree, hfirst⟩ := supported_of_value hvalue
    obtain ⟨hvalues, hbehind⟩ := supported_of_entries hmore
    rw [hcons, hrest, List.forall_mem_cons]
    refine ⟨⟨htree, hvalues⟩, fun hsupported ↦ ?_⟩
    obtain ⟨htext, hstep⟩ := hfirst (hbehind hsupported)
    exact supported_of_next? hnext (isUnsupported_key hitem hkey htext) hstep
termination_by (weight src, 0)

theorem supported_of_value {indent : Nat} {text : List Char} {number : Nat} {src : Source}
    {parsed : Parsed Commented (weight src)} (h : value indent text number src = .ok parsed) :
    parsed.value.1.ValuesUnmarked ∧
      (Supported parsed.rest → isUnsupported text = false ∧ Supported src) := by
  rcases value_eq_ok h with ⟨hplace, hread, hrest⟩ | ⟨comment, hplace, hbelow⟩
  · obtain ⟨htree, htext⟩ := valuesUnmarked_of_inlineValue hread
    rw [hrest]
    exact ⟨htree, fun hsupported ↦ ⟨htext, hsupported⟩⟩
  · have htext := isUnsupported_below hplace
    rcases hbelow with ⟨column, found, hitems, hvalue, hrest⟩ | ⟨found, hnested, hvalue, hrest⟩
    · obtain ⟨hfound, hsrc⟩ := supported_of_items hitems
      rw [hvalue, hrest]
      exact ⟨.sequence hfound, fun hsupported ↦ ⟨htext, hsrc hsupported⟩⟩
    · obtain ⟨hfound, hsrc⟩ := supported_of_nested hnested
      rw [hvalue, hrest]
      exact ⟨hfound, fun hsupported ↦ ⟨htext, hsrc hsupported⟩⟩
termination_by (weight src, 2)

theorem supported_of_nested {indent : Nat} {src : Source} {parsed : Parsed Tree (weight src)}
    (h : nested indent src = .ok parsed) :
    parsed.value.ValuesUnmarked ∧ (Supported parsed.rest → Supported src) := by
  rcases nested_eq_ok h with ⟨hempty, hrest⟩ | ⟨column, found, hitems, hvalue, hrest⟩ |
    ⟨column, found, hentries, hvalue, hrest⟩
  · rw [hempty, hrest]
    exact ⟨.scalar fun _ ↦ nofun, id⟩
  · obtain ⟨hfound, hsrc⟩ := supported_of_items hitems
    rw [hvalue, hrest]
    exact ⟨.sequence hfound, hsrc⟩
  · obtain ⟨hfound, hsrc⟩ := supported_of_entries hentries
    rw [hvalue, hrest]
    exact ⟨.mapping hfound, hsrc⟩
termination_by (weight src, 1)

theorem supported_of_items {indent : Nat} {src : Source}
    {parsed : Parsed (List Tree) (weight src)} (h : items indent src = .ok parsed) :
    (∀ item ∈ parsed.value, item.ValuesUnmarked) ∧ (Supported parsed.rest → Supported src) := by
  rcases items_eq_ok h with ⟨hnil, hrest⟩ |
    ⟨step, body, hbody, first, more, hnext, hitem, hmore, hcons, hrest⟩
  · rw [hnil, hrest]
    exact ⟨List.forall_mem_nil _, id⟩
  · have hlt := weight_of_next? hnext
    have hle := first.le
    obtain ⟨htree, hfirst⟩ := supported_of_item hitem
    obtain ⟨hitems, hbehind⟩ := supported_of_items hmore
    rw [hcons, hrest, List.forall_mem_cons]
    refine ⟨⟨htree.withComments _, hitems⟩, fun hsupported ↦ ?_⟩
    obtain ⟨htext, hstep⟩ := hfirst (hbehind hsupported)
    refine supported_of_next? hnext ?_ hstep
    rwa [lineValue, hbody, Option.getD_some]
termination_by (weight src, 0)

theorem supported_of_item {indent : Nat} {step : Step} {body : List Char}
    {hbody : body.length < step.text.length}
    {parsed : Parsed Tree (weight step.rest + 2 * step.text.length)}
    (h : item indent step body hbody = .ok parsed) :
    parsed.value.ValuesUnmarked ∧ (Supported parsed.rest →
      isUnsupported (bodyValue body) = false ∧ Supported step.rest) := by
  rcases item_eq_ok h with ⟨comment, found, hplace, hnested, hvalue, hbehind⟩ |
    ⟨key, column, found, hplace, hitem, hkey, hentries, hvalue, hbehind⟩ |
    ⟨tree, comment, hplace, hkey, hread, hvalue, hbehind⟩
  · obtain ⟨hfound, hsrc⟩ := supported_of_nested hnested
    rw [hvalue, hbehind, bodyValue_below hplace]
    exact ⟨hfound.withComments _,
      fun hsupported ↦ ⟨isUnsupported_below hplace, hsrc hsupported⟩⟩
  · obtain ⟨hfound, hsrc⟩ := supported_of_entries hentries
    rw [hvalue, hbehind]
    refine ⟨.mapping hfound, fun hsupported ↦ ?_⟩
    have hline := hsrc hsupported
    rw [Supported, lineValues, List.forall_mem_cons, lineValue_of_not_item hitem] at hline
    exact hline
  · obtain ⟨htree, htext⟩ := valuesUnmarked_of_inlineValue hread
    rw [hvalue, hbehind, bodyValue_inline hkey]
    exact ⟨htree.withComments _, fun hsupported ↦ ⟨htext, hsupported⟩⟩
termination_by (weight step.rest + 2 * step.text.length, 0)
decreasing_by
  · exact Prod.Lex.left _ _ (by omega)
  · exact Prod.Lex.left _ _ (by simp only [weight, lineWeight]; omega)

end

/-! ## Files -/

theorem supported_of_root {step : Step} {src rest : Source} {tree : Tree}
    (hnext : next? src = some step) (h : root step src = .ok (tree, rest)) :
    tree.ValuesUnmarked ∧
      (Supported rest → ∀ text ∈ fileValues src, isUnsupported text = false) := by
  unfold root at h
  split at h
  · cases h
  rw [fileValues, hnext]
  dsimp only
  split at h
  · rename_i tail htext
    obtain ⟨⟨value, comment⟩, hread, h⟩ := bind_eq_ok_iff.1 h
    obtain ⟨rfl, rfl⟩ := Prod.mk.inj (Except.ok.inj h)
    obtain ⟨hvalue, hsupported⟩ := valuesUnmarked_of_inlineValue (mapError_eq_ok_iff.1 hread)
    rw [if_pos (by rw [htext, List.head?_cons])]
    exact ⟨hvalue.withComments _, fun hrest ↦ List.forall_mem_cons.2 ⟨hsupported, hrest⟩⟩
  · rename_i hbrace
    obtain ⟨parsed, hentries, h⟩ := bind_eq_ok_iff.1 h
    obtain ⟨rfl, rfl⟩ := Prod.mk.inj (Except.ok.inj h)
    obtain ⟨hvalues, hsupported⟩ := supported_of_entries hentries
    refine ⟨.mapping hvalues, fun hrest ↦ ?_⟩
    have hsrc := hsupported hrest
    rw [Supported, lineValues_of_next? hnext] at hsrc
    rwa [if_neg]
    intro hhead
    obtain ⟨tail, htail⟩ := List.head?_eq_some_iff.1 hhead
    exact hbrace tail htail

theorem supported_of_read {text : List Char} {src : Source} {content : Content}
    (hsrc : sourceOf 1 (Text.lines text) = .ok src) (h : read text = .ok content) :
    (∀ tree ∈ content.root, tree.ValuesUnmarked) ∧
      ∀ text ∈ fileValues src, isUnsupported text = false := by
  rw [read, hsrc, ok_bind] at h
  split at h
  · rename_i hnone
    obtain rfl := Except.ok.inj h
    rw [fileValues, hnone]
    exact ⟨nofun, List.forall_mem_nil _⟩
  · rename_i step hnext
    obtain ⟨⟨tree, rest⟩, hroot, h⟩ := bind_eq_ok_iff.1 h
    obtain ⟨htree, hsupported⟩ := supported_of_root hnext hroot
    dsimp only at h
    split at h
    · cases h
    · rename_i hnone
      obtain rfl := Except.ok.inj h
      refine ⟨fun tree' hmem ↦ ?_, hsupported ?_⟩
      · obtain rfl := Option.some.inj hmem
        exact htree
      · rw [Supported, lineValues_of_none hnone]
        exact List.forall_mem_nil _

end Reader

namespace Document

theorem supported_of_parse {text : String} {d : Document} (h : parse text = .ok d) :
    (∃ t, d.tree? = some t ∧ t.ValuesUnmarked) ∧
      ∀ place ∈ Reader.valueTexts text, isUnsupported place = false := by
  obtain ⟨content, hread, h⟩ := bind_eq_ok_iff.1 h
  obtain ⟨src, hsrc, -⟩ := bind_eq_ok_iff.1 hread
  obtain ⟨htree, hsupported⟩ := Reader.supported_of_read hsrc hread
  rw [Reader.valueTexts, hsrc]
  refine ⟨?_, hsupported⟩
  split at h
  · obtain rfl := Except.ok.inj h
    exact ⟨_, rfl, .mapping (List.forall_mem_nil _)⟩
  · rename_i tree hroot
    obtain rfl := Except.ok.inj h
    exact ⟨_, tree?_ofFile _, (htree tree hroot).withComments _⟩

/-- In the place of a value or an item no plain text that was read begins with a mark, and a text
in which something unsupported begins there is rejected. -/
theorem unsupported_rejected (text : String) :
    (∀ d, parse text = .ok d → ∃ t, d.tree? = some t ∧ t.ValuesUnmarked) ∧
      ((∃ place ∈ Reader.valueTexts text, isUnsupported place = true) →
        ∃ e, parse text = .error e) := by
  refine ⟨fun d h ↦ (supported_of_parse h).1, ?_⟩
  rintro ⟨place, hplace, hunsupported⟩
  cases hparse : parse text with
  | error e => exact ⟨e, rfl⟩
  | ok d =>
    rw [(supported_of_parse hparse).2 place hplace] at hunsupported
    cases hunsupported

theorem unsupported_rejected_anchor :
    (∃ d, parse "a: b\n" = .ok d ∧ ∃ t, d.tree? = some t ∧ t.ValuesUnmarked) ∧
      (∃ place ∈ Reader.valueTexts "a:\n- &x b\n", isUnsupported place = true) ∧
      ∃ e, parse "a:\n- &x b\n" = .error e := by
  obtain ⟨d, hparse⟩ : ∃ d, parse "a: b\n" = .ok d := ⟨_, by cbv⟩
  have hplace : ∃ place ∈ Reader.valueTexts "a:\n- &x b\n", isUnsupported place = true := by
    decide +kernel
  exact ⟨⟨d, hparse, (unsupported_rejected _).1 d hparse⟩, hplace, (unsupported_rejected _).2 hplace⟩

/-- An anchor in front of a key is taken for a part of the key. -/
theorem anchored_key_accepted :
    ¬ ∀ (text : String) (d : Document) (c : Comments) (entries : List (Tree × Tree)),
      parse text = .ok d → d.tree? = some (.mapping c entries) → ∀ entry ∈ entries,
        ∀ comments key, entry.1 = .scalar comments key .plain →
          ∀ first ∈ key.toList.head?, first ∉ marks := by
  intro h
  have hall := h "&a: b\n" (ofFile (.mapping {} [(.scalar {} "&a" .plain, .scalar {} "b" .plain)])) {}
    _ (by cbv) (tree?_ofFile _) _ (List.mem_singleton.2 rfl) {} "&a" rfl
  exact hall '&' rfl (by decide)

end Document

end LayeredConfig
