import LayeredConfig.Proofs.Document.Built
import LayeredConfig.Yaml.Token.Lexer

/-!
# Places where a sequence may begin

In YAML a sequence begins with a dash or a bracket, at a place where a value may begin: at the start
of a line or behind the colon of a key. A scan over the characters of a text keeps track of such
places; it gives up wherever a line could be read in another way. A built tree is written without
a dash or a bracket at any of them, if its texts hold none of the line breaks that only YAML knows.
-/

namespace LayeredConfig.Yaml

/-- A place in a text of keys, scalars of one line, comments and empty braces. -/
inductive Place where
  /-- At the start of a line. -/
  | line
  /-- Behind the spaces at the start of a line, or behind the colon of a key. -/
  | start
  | dot
  | dots
  /-- Behind three dots at the start of a line, which end a document if nothing joins them. -/
  | ellipsis
  | plain
  | plainSpace
  | plainColon
  | doubleQuoted
  | escape
  | singleQuoted
  /-- Behind a single quote, which ends a scalar unless another one follows. -/
  | quote
  | brace
  /-- Behind a quoted scalar or braces. -/
  | closed
  | closedColon
  | comment
deriving DecidableEq, Repr

namespace Place

/-- Behind a character of a plain scalar. -/
def behind (c : Char) : Place :=
  if c = ' ' then plainSpace else if c = ':' then plainColon else plain

def nextPlain (c : Char) : Option Place :=
  if isBreak c then some line else if Text.isControl c then none else some (behind c)

def nextClosed (c : Char) : Option Place :=
  if isBreak c then some line
  else match c with
  | ' ' => some closed
  | ':' => some closedColon
  | '#' => some comment
  | _ => none

def nextStart (c : Char) : Option Place :=
  if isBreak c then some line
  else match c with
  | ' ' => some start
  | '#' => some comment
  | '"' => some doubleQuoted
  | '\'' => some singleQuoted
  | '\x7b' => some brace
  | c => if Lexer.isIndicator c || Text.isControl c then none else some plain

/-- The place behind a character. There is none when a sequence begins with it, or something else
than a key, a scalar of one line, a comment or empty braces. -/
def next : Place → Char → Option Place
  | line, c => if c = '.' then some dot else if c = '\ufeff' then none else nextStart c
  | start, c => nextStart c
  | dot, c => if c = '.' then some dots else nextPlain c
  | dots, c => if c = '.' then some ellipsis else nextPlain c
  | ellipsis, c => if endsToken (some c) then none else nextPlain c
  | plain, c => nextPlain c
  | plainSpace, c => if c = '#' then some comment else nextPlain c
  | plainColon, c => if c = ' ' then some start else nextPlain c
  | doubleQuoted, c =>
    if isBreak c then none
    else some (if c = '"' then closed else if c = '\\' then escape else doubleQuoted)
  | escape, c => if isBreak c then none else some doubleQuoted
  | singleQuoted, c => if isBreak c then none else some (if c = '\'' then quote else singleQuoted)
  | quote, c => if c = '\'' then some singleQuoted else nextClosed c
  | brace, c => if c = '\x7d' then some closed else none
  | closed, c => nextClosed c
  | closedColon, c => if isBreak c then some line else if c = ' ' then some start else none
  | comment, c => some (if isBreak c then line else comment)

def scan (p : Place) (text : List Char) : Option Place :=
  text.foldlM next p

end Place

/-- Whether a sequence may begin somewhere in a text. -/
def mayHoldSequence (text : String) : Bool :=
  (Place.line.scan text.toList).isNone

/-- A reader finds sequences under names only in texts in which a sequence may begin. -/
def Reader.SeesSequences (reader : Reader) : Prop :=
  ∀ text value, reader.value text = .ok value → mayHoldSequence text = false →
    ∀ name, (value.get? name).any Value.isSequence = false

namespace Place

variable {p q : Place} {c : Char} {text rest : List Char}

@[simp] theorem scan_nil (p : Place) : p.scan [] = some p := rfl

theorem scan_cons (p : Place) (c : Char) (text : List Char) :
    p.scan (c :: text) = p.next c >>= fun q ↦ q.scan text :=
  List.foldlM_cons

theorem scan_append (p : Place) (text rest : List Char) :
    p.scan (text ++ rest) = p.scan text >>= fun q ↦ q.scan rest :=
  List.foldlM_append

theorem scan_append_of (h : p.scan text = some q) (rest : List Char) :
    p.scan (text ++ rest) = q.scan rest := by
  rw [scan_append, h]
  rfl

theorem scan_cons_of (h : p.next c = some q) (text : List Char) :
    p.scan (c :: text) = q.scan text := by
  rw [scan_cons, h]
  rfl

theorem scan_congr (h : p.next c = q.next c) (text : List Char) :
    p.scan (c :: text) = q.scan (c :: text) := by
  rw [scan_cons, scan_cons, h]

/-- Places at which a key may begin. -/
inductive Begins : Place → Prop
  | line : Begins line
  | start : Begins start

theorem scan_spaces (count : Nat) :
    ∃ p, Begins p ∧ ∀ rest, line.scan (List.replicate count ' ' ++ rest) = p.scan rest := by
  have hstart (count : Nat) (rest : List Char) :
      start.scan (List.replicate count ' ' ++ rest) = start.scan rest := by
    induction count with
    | zero => rfl
    | succ count ih => rwa [List.replicate_succ, List.cons_append, scan_cons_of rfl]
  cases count with
  | zero => exact ⟨line, .line, fun _ ↦ rfl⟩
  | succ count =>
    refine ⟨start, .start, fun rest ↦ ?_⟩
    rw [List.replicate_succ, List.cons_append, scan_cons_of rfl, hstart]

/-! ## Scalars -/

/-- A text without the line breaks that only YAML knows, and that are not escaped between quotes. -/
def Unbroken (text : List Char) : Prop :=
  '\u2028' ∉ text ∧ '\u2029' ∉ text

/-- A text that has no meaning of its own at the start of a line: neither a byte order mark nor the
marker behind a document is in front of it. -/
def Unmarked (text : List Char) : Prop :=
  text.head? ≠ some '\ufeff' ∧ ¬ ['.', '.', '.', ' '] <+: text

instance (text : List Char) : Decidable (Unbroken text) :=
  inferInstanceAs (Decidable (_ ∧ _))

instance (text : List Char) : Decidable (Unmarked text) :=
  inferInstanceAs (Decidable (_ ∧ _))

/-- Behind a key, a value may begin when a colon and a space follow. -/
def EndsKey (p : Place) : Prop :=
  p.scan [':', ' '] = some start ∧ p.scan [':', '\n'] = some line

/-- The places behind a scalar at which a value may begin. -/
inductive EndsValue : Place → Prop
  | plain : EndsValue plain
  | quote : EndsValue quote
  | closed : EndsValue closed

theorem EndsValue.lineFeed (h : EndsValue p) : p.next '\n' = some line := by
  cases h <;> rfl

theorem EndsValue.endsKey (h : EndsValue p) : p.EndsKey := by
  unfold EndsKey
  cases h <;> decide

theorem isBreak_eq_false (hcontrol : Text.isControl c = false) (hline : c ≠ '\u2028')
    (hparagraph : c ≠ '\u2029') : isBreak c = false := by
  have hne (d : Char) (hd : Text.isControl d = true) : c ≠ d := by
    rintro rfl
    rw [hd] at hcontrol
    cases hcontrol
  simp [isBreak, hline, hparagraph, hne '\r' (by decide), hne '\n' (by decide),
    hne '\u0085' (by decide)]

theorem Unbroken.isBreak (h : Unbroken text) (hcontrol : text.any Text.isControl = false) :
    ∀ c ∈ text, isBreak c = false := by
  intro c hc
  rw [List.any_eq_false] at hcontrol
  exact isBreak_eq_false (Bool.of_not_eq_true (hcontrol c hc)) (ne_of_mem_of_not_mem hc h.1)
    (ne_of_mem_of_not_mem hc h.2)

/-- In a plain text no two characters that follow one another have a meaning. -/
theorem scan_behind {a : Char} (hseparator : Scalar.hasPair ':' ' ' (a :: text) = false)
    (hcomment : Scalar.hasPair ' ' '#' (a :: text) = false)
    (hcontrol : text.any Text.isControl = false) (hbreak : ∀ c ∈ text, isBreak c = false) :
    (behind a).scan text = some (behind ((a :: text).getLast (List.cons_ne_nil _ _))) := by
  induction text generalizing a with
  | nil => rfl
  | cons b rest ih =>
    simp only [Scalar.hasPair, Bool.or_eq_false_iff, Bool.and_eq_false_iff, beq_eq_false_iff_ne]
      at hseparator hcomment
    simp only [List.any_cons, Bool.or_eq_false_iff] at hcontrol
    obtain ⟨hb, hbreak⟩ := List.forall_mem_cons.1 hbreak
    have hplain : nextPlain b = some (behind b) := by
      rw [nextPlain, hb, hcontrol.1]
      rfl
    have hnext : (behind a).next b = some (behind b) := by
      unfold behind
      split
      · rename_i ha
        rw [next, if_neg (hcomment.1.resolve_left (absurd ha)), hplain]
        rfl
      split
      · rename_i ha
        rw [next, if_neg (hseparator.1.resolve_left (absurd ha)), hplain]
        rfl
      · exact hplain
    rw [scan_cons_of hnext, ih hseparator.2 hcomment.2 hcontrol.2 hbreak, List.getLast_cons_cons]

theorem isIndicator_eq (c : Char) : Lexer.isIndicator c = Scalar.indicators.contains c := by
  have hlist : "-?:,[]\x7b\x7d#&*!|>'\"%@\x60".toList = Scalar.indicators := by decide
  rw [Lexer.isIndicator, String.contains_char_eq, hlist, List.contains_eq_mem]

theorem nextStart_of_not_indicator (hbreak : isBreak c = false) (hspace : c ≠ ' ')
    (hindicator : c ∉ Scalar.indicators) (hcontrol : Text.isControl c = false) :
    nextStart c = some plain := by
  have hne (d : Char) (hd : d ∈ Scalar.indicators) : c ≠ d := fun heq ↦ hindicator (heq ▸ hd)
  have hindicator' : Lexer.isIndicator c = false := by
    rw [isIndicator_eq, List.contains_eq_mem, decide_eq_false hindicator]
  rw [nextStart, if_neg (by simp [hbreak]), if_neg (by simp [hindicator', hcontrol])]
  · exact hspace
  · exact hne '#' (by decide)
  · exact hne '"' (by decide)
  · exact hne '\'' (by decide)
  · exact hne '\x7b' (by decide)

theorem scan_plain (h : Inline.PlainText text) (hbreak : ∀ c ∈ text, isBreak c = false) :
    start.scan text = some plain := by
  obtain ⟨first, rest, rfl⟩ := List.exists_cons_of_ne_nil h.ne_nil
  have hcontrol := h.noControl
  rw [List.any_cons, Bool.or_eq_false_iff] at hcontrol
  have hspace (c : Char) (hblank : Text.isBlank c = false) : c ≠ ' ' := by
    rintro rfl
    exact absurd hblank (by decide)
  have hfirst : first ≠ ' ' := hspace first (h.startsClean first rfl)
  have hcolon : first ≠ ':' := by
    rintro rfl
    exact h.notIndicated ':' rfl (by decide)
  have hnext : start.next first = some (behind first) := by
    rw [behind, if_neg hfirst, if_neg hcolon]
    exact nextStart_of_not_indicator (hbreak first List.mem_cons_self) hfirst
      (h.notIndicated first rfl) hcontrol.1
  have hlast := List.getLast?_eq_some_getLast (List.cons_ne_nil first rest)
  rw [scan_cons_of hnext, scan_behind h.noSeparator h.noComment hcontrol.2
    fun c hc ↦ hbreak c (List.mem_cons_of_mem _ hc), behind, if_neg, if_neg]
  · exact fun heq ↦ h.noFinalColon (hlast.trans (congrArg some heq))
  · exact hspace _ (h.endsClean _ hlast)

/-- Dots at the start of a line are read like any other text, unless they end a document. -/
theorem scan_dots (h : ¬ ['.', '.', '.', ' '] <+: '.' :: text)
    (hcontrol : text.any Text.isControl = false) (hbreak : ∀ c ∈ text, isBreak c = false)
    (hplain : plain.scan text = some plain) : ∃ p, dot.scan text = some p ∧ p.EndsKey := by
  have hother {p : Place} {c : Char} {rest : List Char} (hnext : p.next c = plain.next c)
      (hrest : plain.scan (c :: rest) = some plain) :
      ∃ q, p.scan (c :: rest) = some q ∧ q.EndsKey :=
    ⟨plain, (scan_congr hnext rest).trans hrest, EndsValue.plain.endsKey⟩
  have hskip {rest : List Char} (hrest : plain.scan ('.' :: rest) = some plain) :
      plain.scan rest = some plain := by
    rwa [scan_cons_of rfl] at hrest
  rcases text with _ | ⟨a, rest⟩
  · exact ⟨dot, rfl, rfl, rfl⟩
  by_cases ha : a ≠ '.'
  · exact hother (if_neg ha) hplain
  obtain rfl := Decidable.not_not.1 ha
  rw [scan_cons_of rfl]
  rcases rest with _ | ⟨b, rest⟩
  · exact ⟨dots, rfl, rfl, rfl⟩
  by_cases hb : b ≠ '.'
  · exact hother (if_neg hb) (hskip hplain)
  obtain rfl := Decidable.not_not.1 hb
  rw [scan_cons_of rfl]
  rcases rest with _ | ⟨c, rest⟩
  · exact ⟨ellipsis, rfl, rfl, rfl⟩
  refine hother (if_neg ?_) (hskip (hskip hplain))
  simp only [List.any_cons, Bool.or_eq_false_iff] at hcontrol
  have hspace : c ≠ ' ' := by
    rintro rfl
    exact h ⟨rest, rfl⟩
  have htab : c ≠ '\t' := by
    rintro rfl
    exact absurd hcontrol.2.2.1 (by decide)
  simp [endsToken, isSpace, hspace, htab, hbreak c (by simp)]

/-- A plain text is read as a key wherever a key may begin. -/
theorem scan_plainKey (hp : Begins p) (h : Inline.PlainText text)
    (hbreak : ∀ c ∈ text, isBreak c = false) (hmark : Unmarked text) :
    ∃ q, p.scan text = some q ∧ q.EndsKey := by
  have hscan := scan_plain h hbreak
  cases hp with
  | start => exact ⟨plain, hscan, EndsValue.plain.endsKey⟩
  | line =>
    obtain ⟨first, rest, rfl⟩ := List.exists_cons_of_ne_nil h.ne_nil
    by_cases hdot : first = '.'
    · subst hdot
      have hcontrol := h.noControl
      rw [List.any_cons, Bool.or_eq_false_iff] at hcontrol
      have hdot : start.next '.' = some plain :=
        nextStart_of_not_indicator (by decide) (by decide) (by decide) (by decide)
      rw [scan_cons_of (q := dot) rfl]
      exact scan_dots hmark.2 hcontrol.2 (fun c hc ↦ hbreak c (List.mem_cons_of_mem _ hc))
        ((scan_cons_of hdot rest).symm.trans hscan)
    · have hnext : line.next first = start.next first := by
        rw [next, if_neg hdot, if_neg fun heq ↦ hmark.1 (congrArg some heq)]
        rfl
      exact ⟨plain, (scan_congr hnext rest).trans hscan, EndsValue.plain.endsKey⟩

theorem next_doubleQuoted (hbreak : isBreak c = false) (hquote : c ≠ '"') (hbackslash : c ≠ '\\') :
    doubleQuoted.next c = some doubleQuoted := by
  rw [next, if_neg (by simp [hbreak]), if_neg hquote, if_neg hbackslash]

theorem scan_hex4 (n : Nat) : doubleQuoted.scan (Scalar.hex4 n) = some doubleQuoted := by
  have hdigit : ∀ n < 16, doubleQuoted.next (Scalar.upperHexDigit n) = some doubleQuoted := by decide
  have hdigit' (n : Nat) := hdigit (n % 16) (Nat.mod_lt n (by decide))
  rw [Scalar.hex4, scan_cons_of (hdigit' _), scan_cons_of (hdigit' _), scan_cons_of (hdigit' _),
    scan_cons_of (hdigit' _), scan_nil]

theorem scan_escape (hline : c ≠ '\u2028') (hparagraph : c ≠ '\u2029') :
    doubleQuoted.scan (Scalar.escape c) = some doubleQuoted := by
  unfold Scalar.escape
  split
  case h_7 hbackslash hquote _ _ _ _ =>
    split
    · exact scan_hex4 c.toNat
    · rename_i hcontrol
      have hbreak := isBreak_eq_false (Bool.of_not_eq_true hcontrol) hline hparagraph
      rw [scan_cons_of (next_doubleQuoted hbreak hquote hbackslash), scan_nil]
  all_goals rfl

theorem scan_doubleQuote (h : Unbroken text) :
    doubleQuoted.scan (text.flatMap Scalar.escape ++ ['"']) = some closed := by
  have hinner : doubleQuoted.scan (text.flatMap Scalar.escape) = some doubleQuoted := by
    induction text with
    | nil => rfl
    | cons c rest ih =>
      have hrest : Unbroken rest :=
        ⟨fun hmem ↦ h.1 (List.mem_cons_of_mem _ hmem), fun hmem ↦ h.2 (List.mem_cons_of_mem _ hmem)⟩
      have hc := scan_escape (c := c) (fun heq ↦ h.1 (heq ▸ List.mem_cons_self))
        fun heq ↦ h.2 (heq ▸ List.mem_cons_self)
      rw [List.flatMap_cons, scan_append_of hc]
      exact ih hrest
  rw [scan_append_of hinner]
  rfl

theorem scan_singleQuote (h : ∀ c ∈ text, isBreak c = false) :
    singleQuoted.scan (text.flatMap (fun c ↦ if c = '\'' then ['\'', '\''] else [c]) ++ ['\'']) =
      some quote := by
  have hinner : singleQuoted.scan (text.flatMap fun c ↦ if c = '\'' then ['\'', '\''] else [c]) =
      some singleQuoted := by
    induction text with
    | nil => rfl
    | cons c rest ih =>
      obtain ⟨hc, hrest⟩ := List.forall_mem_cons.1 h
      rw [List.flatMap_cons, scan_append_of, ih hrest]
      split
      · rfl
      · rename_i hquote
        have hnext : singleQuoted.next c = some singleQuoted := by
          rw [next, if_neg (by simp [hc]), if_neg hquote]
        rw [scan_cons_of hnext, scan_nil]
  rw [scan_append_of hinner]
  rfl

/-- No sequence begins in a scalar that is written as a value. -/
theorem scan_value (h : Unbroken text) (style : ScalarStyle) :
    ∃ p, start.scan (Scalar.render text style) = some p ∧ EndsValue p := by
  have hwritten := Inline.written_render text style
  generalize Scalar.render text style = written, Inline.writtenStyle text style = style' at hwritten
  cases hwritten with
  | plain hplain => exact ⟨plain, scan_plain hplain (h.isBreak hplain.noControl), .plain⟩
  | single hcontrol =>
    refine ⟨quote, ?_, .quote⟩
    rw [Scalar.singleQuote, List.cons_append, scan_cons_of rfl, scan_singleQuote (h.isBreak hcontrol)]
  | double =>
    refine ⟨closed, ?_, .closed⟩
    rw [Scalar.doubleQuote, List.cons_append, scan_cons_of rfl, scan_doubleQuote h]

/-- No sequence begins in a scalar that is written as a key. -/
theorem scan_key (hp : Begins p) (h : Unbroken text) (hmark : Unmarked text) (style : ScalarStyle) :
    ∃ q, p.scan (Scalar.render text style) = some q ∧ q.EndsKey := by
  have hwritten := Inline.written_render text style
  generalize Scalar.render text style = written, Inline.writtenStyle text style = style' at hwritten
  have hquotes : p.next '\'' = some singleQuoted ∧ p.next '"' = some doubleQuoted := by
    cases hp <;> exact ⟨rfl, rfl⟩
  cases hwritten with
  | plain hplain => exact scan_plainKey hp hplain (h.isBreak hplain.noControl) hmark
  | single hcontrol =>
    refine ⟨quote, ?_, EndsValue.quote.endsKey⟩
    rw [Scalar.singleQuote, List.cons_append, scan_cons_of hquotes.1,
      scan_singleQuote (h.isBreak hcontrol)]
  | double =>
    refine ⟨closed, ?_, EndsValue.closed.endsKey⟩
    rw [Scalar.doubleQuote, List.cons_append, scan_cons_of hquotes.2, scan_doubleQuote h]

end Place

end LayeredConfig.Yaml

namespace LayeredConfig.Tree

open Yaml (isBreak Place)
open Yaml.Place

/-! ## Lines -/

/-- The texts of a tree that is written without sequences. -/
def InLine : Part → String → Prop
  | .comment, text => ∀ c ∈ text.toList, isBreak c = false
  | .key, text => Unbroken text.toList ∧ Unmarked text.toList
  | .value, text => Unbroken text.toList

variable {t key value : Tree} {lines : List Line} {p : Place}

/-- No sequence begins in a line. -/
def IsPlaced (l : Line) : Prop :=
  line.scan (l.render ++ ['\n']) = some line

theorem scan_renderAll (h : ∀ l ∈ lines, IsPlaced l) :
    line.scan (Line.renderAll lines) = some line := by
  induction lines with
  | nil => rfl
  | cons l rest ih =>
    obtain ⟨hline, hrest⟩ := List.forall_mem_cons.1 h
    rw [Line.renderAll, List.map_cons, Text.unlines, List.flatMap_cons, scan_append_of hline]
    exact ih hrest

theorem scan_comment {text : List Char} (h : ∀ c ∈ text, isBreak c = false) :
    comment.scan text = some comment := by
  induction text with
  | nil => rfl
  | cons c rest ih =>
    obtain ⟨hc, hrest⟩ := List.forall_mem_cons.1 h
    have hnext : comment.next c = some comment := by
      rw [next, hc]
      rfl
    rw [scan_cons_of hnext, ih hrest]

theorem isPlaced_comment {indent : Nat} {text : List Char} (hline : IsCommentLine text)
    (h : ∀ c ∈ text, isBreak c = false) : IsPlaced (.comment indent text) := by
  cases text with
  | nil => rfl
  | cons c rest =>
    obtain rfl := hline.marked c rfl
    obtain ⟨p, hp, hspaces⟩ := scan_spaces indent
    have hmark : p.next '#' = some comment := by
      cases hp <;> rfl
    have hcomment := scan_comment fun c hc ↦ h c (List.mem_cons_of_mem _ hc)
    rw [IsPlaced, Line.render, List.append_assoc, hspaces, List.cons_append, scan_cons_of hmark,
      scan_append_of hcomment]
    · rfl
    · exact fun h ↦ by cases h

theorem scan_inlineText (h : Built InLine value) (hp : p.EndsKey) :
    p.scan (':' :: inlineText value ++ ['\n']) = some line := by
  obtain ⟨hspace, hfeed⟩ := hp
  cases h with
  | scalar _ isAllowed =>
    rename_i text style _
    rw [inlineText]
    split
    · exact hfeed
    · obtain ⟨q, hq, hends⟩ := scan_value isAllowed style
      have hbehind := scan_append_of hspace (Scalar.render text.toList style ++ ['\n'])
      rw [scan_append_of hq, scan_cons_of hends.lineFeed, scan_nil] at hbehind
      exact hbehind
  | mapping =>
    rename_i entries _ _
    cases entries with
    | nil => exact scan_append_of hspace ['\x7b', '\x7d', '\n']
    | cons => exact hfeed

theorem isPlaced_keyLine (hkey : BuiltKey InLine key) (hvalue : Built InLine value) (indent : Nat) :
    IsPlaced (keyLine indent [] key value) := by
  cases hkey with
  | mk _ _ isAllowed =>
    rename_i head text _ _
    obtain ⟨p, hp, hspaces⟩ := scan_spaces indent
    obtain ⟨q, hq, hends⟩ :=
      scan_key hp isAllowed.1 isAllowed.2 (Scalar.styleFor text.toList .plain)
    have hline := scan_append_of hq (':' :: inlineText value ++ ['\n'])
    rw [scan_inlineText hvalue hends] at hline
    rw [IsPlaced, keyLine, Line.render, List.append_assoc, hspaces, ← hline]
    simp [keyText, trailing, comments]

theorem isPlaced_commentLines (hkey : BuiltKey InLine key) (indent : Nat) :
    ∀ l ∈ commentLines indent key.comments.head, IsPlaced l := by
  cases hkey with
  | mk comments commentsAllowed =>
    intro l hl
    obtain ⟨text, htext, rfl⟩ := List.mem_map.1 hl
    exact isPlaced_comment (comments text htext) (commentsAllowed text htext)

mutual

theorem isPlaced_block : ∀ (t : Tree) (indent : Nat), Built InLine t →
    ∀ l ∈ block indent t, IsPlaced l
  | .scalar .., _, _ => List.forall_mem_nil _
  | .mapping _ [], _, _ => List.forall_mem_nil _
  | .mapping _ (entry :: rest), indent, h => by
    cases h with
    | mapping keys values =>
      rw [block, commentLines, List.map_nil, List.append_nil]
      · exact isPlaced_entryLines (entry :: rest) indent keys values
      · exact List.cons_ne_nil _ _
  | .sequence .., _, h => by cases h

/-- No sequence begins in the lines of built entries. -/
theorem isPlaced_entryLines : ∀ (entries : List (Tree × Tree)) (indent : Nat),
    (∀ entry ∈ entries, BuiltKey InLine entry.1) → (∀ entry ∈ entries, Built InLine entry.2) →
    ∀ l ∈ entryLines indent entries, IsPlaced l
  | [], _, _, _ => List.forall_mem_nil _
  | (key, value) :: rest, indent, hkeys, hvalues => by
    obtain ⟨hkey, hkeys⟩ := List.forall_mem_cons.1 hkeys
    obtain ⟨hvalue, hvalues⟩ := List.forall_mem_cons.1 hvalues
    rw [entryLines]
    refine List.forall_mem_append.2 ⟨List.forall_mem_append.2 ⟨isPlaced_commentLines hkey indent, ?_⟩,
      isPlaced_entryLines rest indent hkeys hvalues⟩
    exact List.forall_mem_cons.2 ⟨isPlaced_keyLine hkey hvalue indent,
      isPlaced_block value (indent + indentStep) hvalue⟩

end

/-- A built tree is written without sequences, whatever is left out at its top. -/
theorem mayHoldSequence_encode (h : Built InLine t) (hmap : t.isMapping = true)
    (exclude : List String) : Yaml.mayHoldSequence (t.encode exclude) = false := by
  have hlines : ∀ l ∈ fileLines exclude t, IsPlaced l := by
    cases h with
    | scalar => cases hmap
    | mapping keys values =>
      rename_i entries
      rw [fileLines]
      have hfiltered {entry : Tree × Tree}
          (hentry : entry ∈ entries.filter fun entry ↦ !isExcluded exclude entry.1) : entry ∈ entries :=
        (List.mem_filter.1 hentry).1
      generalize entries.filter (fun entry ↦ !isExcluded exclude entry.1) = visible at hfiltered
      cases visible with
      | nil => exact List.forall_mem_singleton.2 rfl
      | cons entry rest =>
        have hentries := isPlaced_entryLines (entry :: rest) 0 (fun _ hmem ↦ keys _ (hfiltered hmem))
          fun _ hmem ↦ values _ (hfiltered hmem)
        exact List.forall_mem_append.2 ⟨List.forall_mem_nil _,
          List.forall_mem_append.2 ⟨hentries, List.forall_mem_nil _⟩⟩
  rw [Yaml.mayHoldSequence, encode, String.toList_ofList, scan_renderAll hlines]
  rfl

end LayeredConfig.Tree
