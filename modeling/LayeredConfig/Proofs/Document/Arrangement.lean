import LayeredConfig.Proofs.Document.Orderly
import LayeredConfig.Proofs.Document.ReadBack
import LayeredConfig.Proofs.Document.Spelling

/-!
# Arrangements of a tree

The lines of a file may be arranged in other ways than they are written. A nested block may stand
at any column further right than what it belongs to, a sequence also right below its key, and the
keys of an item beside its dash or below it. Scalars have any spelling. Whatever arrangement is
chosen, the tree is read from it.
-/

namespace LayeredConfig.Reader

open Text Inline LayeredConfig.Tree

/-! ## Arrangements -/

/-- A value on the line of its key or dash. -/
inductive Inlined : Tree → List Char → Prop
  | scalar {text : String} {written : List Char} {style : ScalarStyle}
      (h : Spelled text.toList written style) : Inlined (.scalar {} text style) written
  | mapping : Inlined (.mapping {} []) ['\x7b', '\x7d']
  | sequence : Inlined (.sequence {} []) ['[', ']']

mutual

/-- The lines of entries whose keys stand at `column`. -/
inductive EntriesAt : Nat → List (Tree × Tree) → List Line → Prop
  | nil {column : Nat} : EntriesAt column [] []
  | cons {column : Nat} {text : String} {written behind : List Char} {style : ScalarStyle}
      {value : Tree} {below rest : List Line} {entries : List (Tree × Tree)}
      (hkey : Spelled text.toList written style) (hvalue : ValueAt column value behind below)
      (hrest : EntriesAt column entries rest) :
      EntriesAt column ((.scalar {} text style, value) :: entries)
        (.content column (written ++ ':' :: behind) :: (below ++ rest))

/-- The value of a key at `column`: the text behind the colon and the lines below. -/
inductive ValueAt : Nat → Tree → List Char → List Line → Prop
  | inline {column gap : Nat} {value : Tree} {written : List Char} (h : Inlined value written) :
      ValueAt column value (List.replicate (gap + 1) ' ' ++ written) []
  | empty {column : Nat} : ValueAt column (.scalar {} "" .plain) [] []
  | mapping {column deeper : Nat} {entries : List (Tree × Tree)} {below : List Line}
      (h : EntriesAt deeper entries below) (hne : entries ≠ []) (hdeeper : column < deeper) :
      ValueAt column (.mapping {} entries) [] below
  /-- The dashes may stand right below the key. -/
  | sequence {column deeper : Nat} {items : List Tree} {below : List Line}
      (h : ItemsAt deeper items below) (hne : items ≠ []) (hdeeper : column ≤ deeper) :
      ValueAt column (.sequence {} items) [] below

/-- An item whose dash stands at `column`: the line of the dash and the lines below. -/
inductive ItemAt : Nat → Tree → List Char → List Line → Prop
  | inline {column gap : Nat} {item : Tree} {written : List Char} (h : Inlined item written) :
      ItemAt column item ('-' :: (List.replicate (gap + 1) ' ' ++ written)) []
  | empty {column : Nat} : ItemAt column (.scalar {} "" .plain) ['-'] []
  | mapping {column deeper : Nat} {entries : List (Tree × Tree)} {below : List Line}
      (h : EntriesAt deeper entries below) (hne : entries ≠ []) (hdeeper : column < deeper) :
      ItemAt column (.mapping {} entries) ['-'] below
  | sequence {column deeper : Nat} {items : List Tree} {below : List Line}
      (h : ItemsAt deeper items below) (hne : items ≠ []) (hdeeper : column < deeper) :
      ItemAt column (.sequence {} items) ['-'] below
  /-- The first key stands on the line of the dash, and the other keys line up with it. -/
  | beside {column gap : Nat} {entries : List (Tree × Tree)} {first : List Char}
      {below : List Line}
      (h : EntriesAt (column + (gap + 2)) entries (.content (column + (gap + 2)) first :: below)) :
      ItemAt column (.mapping {} entries) ('-' :: (List.replicate (gap + 1) ' ' ++ first)) below

/-- The lines of items whose dashes stand at `column`. -/
inductive ItemsAt : Nat → List Tree → List Line → Prop
  | nil {column : Nat} : ItemsAt column [] []
  | cons {column : Nat} {item : Tree} {dash : List Char} {below rest : List Line}
      {items : List Tree} (hitem : ItemAt column item dash below)
      (hrest : ItemsAt column items rest) :
      ItemsAt column (item :: items) (.content column dash :: (below ++ rest))

end

/-- The lines of a file. The keys at the top may stand at any column. -/
inductive Arranged : Tree → List Line → Prop
  | empty {column : Nat} : Arranged (.mapping {} []) [.content column ['\x7b', '\x7d']]
  | entries {column : Nat} {entries : List (Tree × Tree)} {lines : List Line}
      (h : EntriesAt column entries lines) (hne : entries ≠ []) :
      Arranged (.mapping {} entries) lines

section

variable {column number gap : Nat} {value item : Tree} {written behind dash rest : List Char}
  {text : List Char} {style : ScalarStyle} {entries : List (Tree × Tree)} {items : List Tree}
  {lines below : List Line} {src tail : Source}

/-! ## Inlined values -/

/-- An inlined value can be taken neither for a comment nor for an item. -/
theorem Inlined.exists_cons (h : Inlined value written) :
    ∃ first rest, written = first :: rest ∧ isBlank first = false ∧ first ≠ '#' ∧ first ≠ '-' := by
  cases h with
  | scalar h =>
    obtain ⟨first, rest, hcons, hblank, -⟩ := h.exists_cons
    exact ⟨first, rest, hcons, hblank, h.head_ne hcons (by decide) (by decide) (by decide),
      h.head_ne hcons (by decide) (by decide) (by decide)⟩
  | mapping => exact ⟨_, _, rfl, by decide, by decide, by decide⟩
  | sequence => exact ⟨_, _, rfl, by decide, by decide, by decide⟩

theorem Inlined.ne_nil (h : Inlined value written) : written ≠ [] := by
  obtain ⟨first, rest, rfl, -⟩ := h.exists_cons
  exact List.cons_ne_nil _ _

theorem Inlined.clean (h : Inlined value written) : Clean written := by
  cases h with
  | scalar h => exact h.clean
  | mapping => exact ⟨by decide, endsClean_singleton (by decide)⟩
  | sequence => exact ⟨by decide, endsClean_singleton (by decide)⟩

theorem Inlined.placement_eq (h : Inlined value written) : placement written = .inline := by
  obtain ⟨first, rest, rfl, -, hmark, -⟩ := h.exists_cons
  exact placement_of_head_ne rest hmark

theorem Inlined.isItem_eq (h : Inlined value written) : isItem written = false := by
  obtain ⟨first, rest, rfl, -, -, hdash⟩ := h.exists_cons
  exact isItem_of_head_ne rest hdash

theorem Inlined.splitKey_eq (h : Inlined value written) : splitKey written = .ok none := by
  cases h with
  | scalar h => exact h.splitKey_eq_none
  | mapping => rfl
  | sequence => rfl

theorem Inlined.inlineValue_eq (h : Inlined value written) :
    inlineValue written = .ok (value, none) := by
  cases h with
  | mapping => rfl
  | sequence => rfl
  | scalar h =>
    have hread := h.scalar_eq
    obtain ⟨first, rest, rfl, -⟩ := h.exists_cons
    unfold inlineValue
    split
    case h_10 =>
      rw [hread, ok_bind, String.ofList_toList]
      rfl
    all_goals
      rename_i hline
      exact absurd (List.cons.inj hline).1 (h.head_ne rfl (by decide) (by decide) (by decide))

/-! ## The lines of keys and items -/

/-- A line that starts with a key. -/
structure StartsKey (text : List Char) : Prop where
  key : ∃ key, splitKey text = .ok (some key)
  head : ∃ first rest, text = first :: rest ∧ isBlank first = false ∧ first ≠ '#' ∧ first ≠ '-' ∧
    first ≠ '\x7b'
  clean : Clean text
  colon : ':' ∈ text

theorem StartsKey.isItem_eq (h : StartsKey text) : isItem text = false := by
  obtain ⟨first, rest, rfl, -, -, hdash, -⟩ := h.head
  exact isItem_of_head_ne rest hdash

theorem StartsKey.placement_eq (h : StartsKey text) : placement text = .inline := by
  obtain ⟨first, rest, rfl, -, hmark, -⟩ := h.head
  exact placement_of_head_ne rest hmark

theorem StartsKey.legible (h : StartsKey text) (column : Nat) :
    (Line.content column text).Legible := by
  have hcolon := h.colon
  have hclean := h.clean
  obtain ⟨first, rest, rfl, hblank, hmark, -⟩ := h.head
  refine .content hclean hblank hmark fun _ ↦ ⟨?_, ?_⟩
  · rintro hmarker
    rw [hmarker] at hcolon
    exact absurd hcolon (by decide)
  · rintro hmarker
    rw [hmarker] at hcolon
    exact absurd hcolon (by decide)

theorem clean_gap (gap : Nat) (h : Clean written) (hne : written ≠ []) :
    Clean (List.replicate gap ' ' ++ written) := by
  refine Clean.append (fun hmem ↦ ?_) h hne
  exact absurd (List.eq_of_mem_replicate hmem) (by decide)

/-- What stands behind a colon leaves the line clean and lets the colon end its key. -/
theorem ValueAt.endsKey_and_clean (h : ValueAt column value behind below) :
    endsKey behind = true ∧ Clean behind := by
  cases h with
  | inline h => exact ⟨rfl, clean_gap _ h.clean h.ne_nil⟩
  | empty => exact ⟨rfl, clean_nil⟩
  | mapping => exact ⟨rfl, clean_nil⟩
  | sequence => exact ⟨rfl, clean_nil⟩

theorem startsKey (hkey : Spelled text written style)
    (hvalue : ValueAt column value behind below) : StartsKey (written ++ ':' :: behind) := by
  obtain ⟨hends, hclean⟩ := hvalue.endsKey_and_clean
  obtain ⟨first, rest, hcons, hblank, -⟩ := hkey.exists_cons
  have hcolon : Clean (':' :: behind) :=
    Clean.append_clean (a := [':']) ⟨by decide, endsClean_singleton (by decide)⟩ hclean
  refine ⟨⟨_, hkey.splitKey_append hends⟩, ⟨first, rest ++ ':' :: behind, ?_, hblank, ?_, ?_, ?_⟩,
    hkey.clean.append_clean hcolon, List.mem_append_right _ List.mem_cons_self⟩
  · rw [hcons, List.cons_append]
  · exact hkey.head_ne hcons (by decide) (by decide) (by decide)
  · exact hkey.head_ne hcons (by decide) (by decide) (by decide)
  · exact hkey.head_ne hcons (by decide) (by decide) (by decide)

theorem EntriesAt.cases_lines (h : EntriesAt column entries lines) :
    (entries = [] ∧ lines = []) ∨
      ∃ text more, lines = .content column text :: more ∧ StartsKey text := by
  cases h with
  | nil => exact .inl ⟨rfl, rfl⟩
  | cons hkey hvalue => exact .inr ⟨_, _, rfl, startsKey hkey hvalue⟩

/-- The text of a dash line behind the dash. -/
theorem itemBody?_gap {first : Char} {rest : List Char} (hblank : isBlank first = false) :
    itemBody? ('-' :: (List.replicate (gap + 1) ' ' ++ first :: rest)) = some (first :: rest) := by
  have hdrop := Line.dropWhile_replicate_append gap rest hblank
  rw [List.replicate_succ, List.cons_append]
  exact congrArg some hdrop

theorem ItemAt.exists_body (h : ItemAt column item dash below) :
    ∃ body, itemBody? dash = some body := by
  cases h with
  | inline h =>
    obtain ⟨first, rest, rfl, hblank, -⟩ := h.exists_cons
    exact ⟨_, itemBody?_gap hblank⟩
  | empty => exact ⟨[], rfl⟩
  | mapping => exact ⟨[], rfl⟩
  | sequence => exact ⟨[], rfl⟩
  | beside h =>
    obtain ⟨-, hnil⟩ | ⟨text, more, hcons, htext⟩ := h.cases_lines
    · cases hnil
    · obtain ⟨hline, -⟩ := List.cons.inj hcons
      obtain ⟨-, rfl⟩ := Line.content.inj hline
      obtain ⟨first, rest, rfl, hblank, -⟩ := htext.head
      exact ⟨_, itemBody?_gap hblank⟩

theorem ItemAt.isItem_eq (h : ItemAt column item dash below) : isItem dash = true := by
  obtain ⟨body, hbody⟩ := h.exists_body
  rw [isItem, hbody]
  rfl

theorem ItemsAt.cases_lines (h : ItemsAt column items lines) :
    (items = [] ∧ lines = []) ∨
      ∃ text more, lines = .content column text :: more ∧ isItem text = true := by
  cases h with
  | nil => exact .inl ⟨rfl, rfl⟩
  | cons hitem => exact .inr ⟨_, _, rfl, hitem.isItem_eq⟩

theorem legible_dash (column : Nat) : (Line.content column ['-']).Legible :=
  .content ⟨by decide, endsClean_singleton (by decide)⟩ (by decide) (by decide) fun _ ↦ by simp

theorem legible_behindDash (h : Clean written) (hne : written ≠ []) (gap column : Nat) :
    (Line.content column ('-' :: (List.replicate (gap + 1) ' ' ++ written))).Legible := by
  have hclean : Clean ('-' :: (List.replicate (gap + 1) ' ' ++ written)) :=
    Clean.append_clean (a := ['-']) ⟨by decide, endsClean_singleton (by decide)⟩
      (clean_gap (gap + 1) h hne)
  exact .content hclean (by decide) (by decide) fun _ ↦ by simp [List.replicate_succ]

end

mutual

theorem legible_entriesAt {column : Nat} {entries : List (Tree × Tree)} {lines : List Line}
    (h : EntriesAt column entries lines) : ∀ line ∈ lines, line.Legible :=
  match h with
  | .nil => List.forall_mem_nil _
  | .cons hkey hvalue hrest =>
    List.forall_mem_cons.2 ⟨(startsKey hkey hvalue).legible column,
      List.forall_mem_append.2 ⟨legible_valueAt hvalue, legible_entriesAt hrest⟩⟩

theorem legible_valueAt {column : Nat} {value : Tree} {behind : List Char} {below : List Line}
    (h : ValueAt column value behind below) : ∀ line ∈ below, line.Legible :=
  match h with
  | .inline _ => List.forall_mem_nil _
  | .empty => List.forall_mem_nil _
  | .mapping hentries _ _ => legible_entriesAt hentries
  | .sequence hitems _ _ => legible_itemsAt hitems

theorem legible_itemAt {column : Nat} {item : Tree} {dash : List Char} {below : List Line}
    (h : ItemAt column item dash below) :
    ∀ line ∈ Line.content column dash :: below, line.Legible :=
  match h with
  | .inline hinlined =>
    List.forall_mem_singleton.2 (legible_behindDash hinlined.clean hinlined.ne_nil _ _)
  | .empty => List.forall_mem_singleton.2 (legible_dash _)
  | .mapping hentries _ _ =>
    List.forall_mem_cons.2 ⟨legible_dash _, legible_entriesAt hentries⟩
  | .sequence hitems _ _ =>
    List.forall_mem_cons.2 ⟨legible_dash _, legible_itemsAt hitems⟩
  | .beside hentries => by
    obtain ⟨hfirst, hbelow⟩ := List.forall_mem_cons.1 (legible_entriesAt hentries)
    cases hfirst with
    | content hclean =>
      exact List.forall_mem_cons.2
        ⟨legible_behindDash hclean (List.cons_ne_nil _ _) _ _, hbelow⟩

theorem legible_itemsAt {column : Nat} {items : List Tree} {lines : List Line}
    (h : ItemsAt column items lines) : ∀ line ∈ lines, line.Legible :=
  match h with
  | .nil => List.forall_mem_nil _
  | .cons hitem hrest => by
    obtain ⟨hdash, hbelow⟩ := List.forall_mem_cons.1 (legible_itemAt hitem)
    exact List.forall_mem_cons.2 ⟨hdash, List.forall_mem_append.2 ⟨hbelow, legible_itemsAt hrest⟩⟩

end

section

variable {column deeper number gap : Nat} {value item : Tree} {written dash : List Char}
  {entries : List (Tree × Tree)} {items : List Tree} {lines below : List Line} {src tail : Source}

/-! ## The lines behind a part -/

theorem Ends.mono (h : Ends column src) (hle : column ≤ deeper) : Ends deeper src := by
  intro step hstep
  rcases h step hstep with hlt | ⟨heq, hitem⟩
  · exact .inl (by omega)
  · rcases Nat.lt_or_eq_of_le hle with hlt | rfl
    · exact .inl (by omega)
    · exact .inr ⟨heq, hitem⟩

/-- The items of a sequence end at the next key, which may line up with their dashes. -/
theorem items_nil_of_ends (h : Ends column src) : Reads (Reader.items column src) [] src := by
  unfold Reads Reader.items
  split
  · exact ⟨_, rfl, rfl, rfl⟩
  · rename_i step hstep
    rcases h step hstep with hlt | ⟨heq, hitem⟩
    · rw [if_pos hlt]
      exact ⟨_, rfl, rfl, rfl⟩
    · rw [if_neg (by omega)]
      split
      · rw [if_neg (by omega)]
        exact ⟨_, rfl, rfl, rfl⟩
      · rename_i body hbody
        rw [isItem, hbody] at hitem
        cases hitem

theorem ends_entriesAt (h : EntriesAt column entries lines) (number : Nat)
    (htail : Closes column tail) : Ends column (numbered number lines ++ tail) := by
  rcases h.cases_lines with ⟨-, rfl⟩ | ⟨text, more, rfl, htext⟩
  · exact htail.ends
  · intro step hstep
    obtain rfl := Option.some.inj hstep
    exact .inr ⟨rfl, htext.isItem_eq⟩

theorem closes_itemsAt (h : ItemsAt column items lines) (number : Nat)
    (htail : Ends column tail) : Closes (column + 1) (numbered number lines ++ tail) := by
  rcases h.cases_lines with ⟨-, rfl⟩ | ⟨text, more, rfl, -⟩
  · exact htail.closes
  · intro step hstep
    obtain rfl := Option.some.inj hstep
    exact Nat.lt_succ_self column

/-! ## Parts of a tree -/

theorem Inlined.withLine_eq (h : Inlined value written) : value.withLine none = value := by
  cases h <;> rfl

theorem ItemAt.withHead_eq (h : ItemAt column item dash below) : item.withHead [] = item := by
  cases h with
  | inline h => cases h <;> rfl
  | _ => rfl

theorem trimStart_gap (h : Inlined value written) (gap : Nat) :
    trimStart (List.replicate gap ' ' ++ written) = written := by
  obtain ⟨first, rest, rfl, hblank, -⟩ := h.exists_cons
  induction gap with
  | zero => exact trimStart_cons_of_not_blank hblank
  | succ gap ih =>
    rw [List.replicate_succ, List.cons_append, trimStart_cons_of_blank (by decide), ih]

/-- Lines that start with a key further right are the block of a mapping. -/
theorem nested_entriesAt (h : EntriesAt deeper entries lines) (hne : entries ≠ [])
    (hdeeper : column < deeper)
    (hread : Reads (Reader.entries deeper (numbered number lines ++ tail)) entries tail) :
    Reads (nested column (numbered number lines ++ tail)) (.mapping {} entries) tail := by
  rcases h.cases_lines with ⟨hnil, -⟩ | ⟨text, more, rfl, htext⟩
  · exact absurd hnil hne
  · exact nested_entries rfl hdeeper htext.isItem_eq hread

/-- Lines that start with a dash further right are the block of a sequence. -/
theorem nested_itemsAt (h : ItemsAt deeper items lines) (hne : items ≠ [])
    (hdeeper : column < deeper)
    (hread : Reads (Reader.items deeper (numbered number lines ++ tail)) items tail) :
    Reads (nested column (numbered number lines ++ tail)) (.sequence {} items) tail := by
  rcases h.cases_lines with ⟨hnil, -⟩ | ⟨text, more, rfl, hitem⟩
  · exact absurd hnil hne
  · exact nested_items rfl hdeeper hitem hread

end

/-! ## Reading an arrangement

A part is read in front of any lines that cannot belong to it. Behind entries these stand further
left; behind a value or items a key may also line up with it. The induction is on the arrangement.
-/

mutual

theorem reads_entriesAt {column : Nat} {entries : List (Tree × Tree)} {lines : List Line}
    (h : EntriesAt column entries lines) (number : Nat) (tail : Source)
    (htail : Closes column tail) :
    Reads (Reader.entries column (numbered number lines ++ tail)) entries tail :=
  match h with
  | .nil => entries_nil htail
  | .cons hkey hvalue hrest => by
    rename_i text written behind style value below rest entries
    have hnext := next?_content number column (written ++ ':' :: behind) (below ++ rest) tail
    rw [numbered_append, List.append_assoc] at hnext
    have hread := entries_cons hnext rfl (startsKey hkey hvalue).isItem_eq
      (hkey.splitKey_append hvalue.endsKey_and_clean.1)
      (reads_valueAt hvalue number (number + 1) _ (ends_entriesAt hrest _ htail))
      (reads_entriesAt hrest _ tail htail)
    rw [String.ofList_toList] at hread
    exact hread

theorem reads_valueAt {column : Nat} {v : Tree} {behind : List Char} {below : List Line}
    (h : ValueAt column v behind below) (number start : Nat) (tail : Source)
    (htail : Ends column tail) :
    Reads (value column (trimStart behind) number (numbered start below ++ tail)) (v, none) tail :=
  match h with
  | .inline hinlined => by
    rw [trimStart_gap hinlined]
    exact value_inline hinlined.placement_eq hinlined.inlineValue_eq
  | .empty => by
    refine value_nested rfl (fun step hstep hindent ↦ ?_) (nested_empty htail.closes)
    rcases htail step hstep with hlt | ⟨-, hitem⟩
    · omega
    · exact hitem
  | .mapping hentries hne hdeeper => by
    have hread := reads_entriesAt hentries start tail (htail.closes.mono hdeeper)
    refine value_nested rfl ?_ (nested_entriesAt hentries hne hdeeper hread)
    rcases hentries.cases_lines with ⟨hnil, -⟩ | ⟨text, more, rfl, htext⟩
    · exact absurd hnil hne
    · intro step hstep _
      obtain rfl := Option.some.inj hstep
      exact htext.isItem_eq
  | .sequence hitems hne hdeeper => by
    have hread := reads_itemsAt hitems start tail (htail.mono hdeeper)
    rcases hitems.cases_lines with ⟨hnil, -⟩ | ⟨text, more, rfl, hitem⟩
    · exact absurd hnil hne
    · exact value_items rfl rfl hitem hdeeper hread

theorem reads_itemAt {column : Nat} {item : Tree} {dash : List Char} {below : List Line}
    (h : ItemAt column item dash below) (number : Nat) (tail : Source)
    (htail : Closes (column + 1) tail) {body : List Char} (hbody : itemBody? dash = some body) :
    Reads (Reader.item column ⟨[], number, column, dash, numbered (number + 1) below ++ tail⟩ body
      (length_of_itemBody? hbody)) item tail :=
  match h, hbody with
  | .inline hinlined, hbody => by
    rename_i gap written
    have hplace := hinlined.placement_eq
    have hitem := hinlined.isItem_eq
    have hkey := hinlined.splitKey_eq
    have hread := hinlined.inlineValue_eq
    rw [← hinlined.withLine_eq]
    obtain ⟨first, rest, rfl, hblank, -⟩ := hinlined.exists_cons
    obtain rfl := Option.some.inj ((itemBody?_gap hblank).symm.trans hbody)
    exact item_inline hplace hitem hkey hread
  | .empty, hbody => by
    obtain rfl := Option.some.inj hbody
    exact item_below rfl (nested_empty htail)
  | .mapping hentries hne hdeeper, hbody => by
    obtain rfl := Option.some.inj hbody
    have hread := reads_entriesAt hentries (number + 1) tail (htail.mono hdeeper)
    change Reads _ ((Tree.mapping {} _).withLine none) tail
    exact item_below rfl (nested_entriesAt hentries hne hdeeper hread)
  | .sequence hitems hne hdeeper, hbody => by
    obtain rfl := Option.some.inj hbody
    have hread := reads_itemsAt hitems (number + 1) tail (htail.mono hdeeper).ends
    change Reads _ ((Tree.sequence {} _).withLine none) tail
    exact item_below rfl (nested_itemsAt hitems hne hdeeper hread)
  | .beside hentries, hbody => by
    rename_i gap entries first
    have hread := reads_entriesAt hentries number tail (htail.mono (by omega))
    obtain ⟨-, hnil⟩ | ⟨text, more, hcons, htext⟩ := hentries.cases_lines
    · cases hnil
    obtain ⟨hline, -⟩ := List.cons.inj hcons
    obtain ⟨-, rfl⟩ := Line.content.inj hline
    have hplace := htext.placement_eq
    have hitem := htext.isItem_eq
    obtain ⟨key, hkey⟩ := htext.key
    obtain ⟨first, rest, rfl, hblank, -⟩ := htext.head
    obtain rfl := Option.some.inj ((itemBody?_gap hblank).symm.trans hbody)
    -- Without its dash this is the first line of the entries, at the column of the key.
    refine item_key hplace hitem hkey ?_ hread
    simp only [List.length_cons, List.length_append, List.length_replicate]
    omega

theorem reads_itemsAt {column : Nat} {items : List Tree} {lines : List Line}
    (h : ItemsAt column items lines) (number : Nat) (tail : Source) (htail : Ends column tail) :
    Reads (Reader.items column (numbered number lines ++ tail)) items tail :=
  match h with
  | .nil => items_nil_of_ends htail
  | .cons hitem hrest => by
    rename_i item dash below rest items
    have hnext := next?_content number column dash (below ++ rest) tail
    rw [numbered_append, List.append_assoc] at hnext
    obtain ⟨body, hbody⟩ := hitem.exists_body
    have hclosed := closes_itemsAt hrest (number + 1 + below.length) htail
    have hread := reads_itemAt hitem number _ hclosed hbody
    have hmore := items_cons hnext rfl hbody hread (reads_itemsAt hrest _ tail htail)
    rw [hitem.withHead_eq] at hmore
    exact hmore

end

/-! ## Every tree can be arranged -/

/-- A part of a tree stands on its line, or its lines start at `column`. -/
inductive PartAt (column : Nat) : Tree → Prop
  | inlined {t : Tree} {written : List Char} (h : Inlined t written) : PartAt column t
  | mapping {entries : List (Tree × Tree)} {lines : List Line} (h : EntriesAt column entries lines)
      (hne : entries ≠ []) : PartAt column (.mapping {} entries)
  | sequence {items : List Tree} {lines : List Line} (h : ItemsAt column items lines)
      (hne : items ≠ []) : PartAt column (.sequence {} items)

theorem PartAt.exists_valueAt {column : Nat} {t : Tree} (h : PartAt (column + 1) t) :
    ∃ behind below, ValueAt column t behind below := by
  cases h with
  | inlined h => exact ⟨_, _, @ValueAt.inline column 0 _ _ h⟩
  | mapping h hne => exact ⟨_, _, .mapping h hne (Nat.lt_succ_self column)⟩
  | sequence h hne => exact ⟨_, _, .sequence h hne (Nat.le_succ column)⟩

theorem PartAt.exists_itemAt {column : Nat} {t : Tree} (h : PartAt (column + 1) t) :
    ∃ dash below, ItemAt column t dash below := by
  cases h with
  | inlined h => exact ⟨_, _, @ItemAt.inline column 0 _ _ h⟩
  | mapping h hne => exact ⟨_, _, .mapping h hne (Nat.lt_succ_self column)⟩
  | sequence h hne => exact ⟨_, _, .sequence h hne (Nat.lt_succ_self column)⟩

mutual

theorem exists_partAt : ∀ {t : Tree} (column : Nat), t.Writable →
    ∃ t', t'.bare = t.bare ∧ PartAt column t'
  | .scalar c text style, column, _ => by
    obtain ⟨written, h⟩ := exists_escaped text.toList
    exact ⟨.scalar {} text .doubleQuoted, rfl, .inlined (.scalar (.double h))⟩
  | .mapping c [], column, _ => ⟨.mapping {} [], rfl, .inlined .mapping⟩
  | .mapping c (entry :: rest), column, h => by
    cases h with
    | mapping _ hkeys hvalues =>
      obtain ⟨entries, lines, hbare, harranged⟩ := exists_entriesAt column hkeys hvalues
      refine ⟨.mapping {} entries, congrArg (Tree.mapping {}) hbare, .mapping harranged ?_⟩
      rintro rfl
      cases hbare
  | .sequence c [], column, _ => ⟨.sequence {} [], rfl, .inlined .sequence⟩
  | .sequence c (item :: rest), column, h => by
    cases h with
    | sequence _ hitems =>
      obtain ⟨items, lines, hbare, harranged⟩ := exists_itemsAt column hitems
      refine ⟨.sequence {} items, congrArg (Tree.sequence {}) hbare, .sequence harranged ?_⟩
      rintro rfl
      cases hbare

theorem exists_entriesAt : ∀ {entries : List (Tree × Tree)} (column : Nat),
    (∀ entry ∈ entries, entry.1.IsKey) → (∀ entry ∈ entries, entry.2.Writable) →
    ∃ entries' lines, bareEntries entries' = bareEntries entries ∧ EntriesAt column entries' lines
  | [], column, _, _ => ⟨[], [], rfl, .nil⟩
  | (key, value) :: rest, column, hkeys, hvalues => by
    obtain ⟨hkey, hkeys⟩ := List.forall_mem_cons.1 hkeys
    obtain ⟨hvalue, hvalues⟩ := List.forall_mem_cons.1 hvalues
    obtain ⟨value', hbare, hpart⟩ := exists_partAt (column + 1) hvalue
    obtain ⟨behind, below, hvalue'⟩ := hpart.exists_valueAt
    obtain ⟨entries', lines, hbares, hrest⟩ := exists_entriesAt column hkeys hvalues
    cases hkey with
    | scalar hc =>
      rename_i c text style
      obtain ⟨written, h⟩ := exists_escaped text.toList
      refine ⟨(.scalar {} text .doubleQuoted, value') :: entries', _, ?_,
        .cons (.double h) hvalue' hrest⟩
      rw [bareEntries, bareEntries, hbare, hbares]
      rfl

theorem exists_itemsAt : ∀ {items : List Tree} (column : Nat), (∀ item ∈ items, item.Writable) →
    ∃ items' lines, bareItems items' = bareItems items ∧ ItemsAt column items' lines
  | [], column, _ => ⟨[], [], rfl, .nil⟩
  | item :: rest, column, hitems => by
    obtain ⟨hitem, hitems⟩ := List.forall_mem_cons.1 hitems
    obtain ⟨item', hbare, hpart⟩ := exists_partAt (column + 1) hitem
    obtain ⟨dash, below, hitem'⟩ := hpart.exists_itemAt
    obtain ⟨items', lines, hbares, hrest⟩ := exists_itemsAt column hitems
    refine ⟨item' :: items', _, ?_, .cons hitem' hrest⟩
    rw [bareItems, bareItems, hbare, hbares]

end

/-- Whatever its texts are, the tree of a file can be arranged. -/
theorem exists_arranged {t : Tree} (h : t.IsFile) :
    ∃ t' lines, t'.bare = t.bare ∧ Arranged t' lines := by
  cases h with
  | mapping hc hkeys hvalues =>
    rename_i c entries
    rcases entries with _ | ⟨entry, rest⟩
    · exact ⟨.mapping {} [], _, rfl, @Arranged.empty 0⟩
    · obtain ⟨entries', lines, hbare, harranged⟩ := exists_entriesAt 0 hkeys hvalues
      refine ⟨.mapping {} entries', lines, congrArg (Tree.mapping {}) hbare, .entries harranged ?_⟩
      rintro rfl
      cases hbare

/-! ## Files -/

theorem root_startsKey {step : Step} {src rest : Source} {found : List (Tree × Tree)}
    (htext : StartsKey step.text) (h : Reads (entries step.indent src) found rest) :
    root step src = .ok (.mapping {} found, rest) := by
  obtain ⟨⟨_, _, hle⟩, h, rfl, rfl⟩ := h
  have hitem := htext.isItem_eq
  obtain ⟨first, more, hcons, -, -, -, hbrace⟩ := htext.head
  unfold root
  rw [if_neg (by rw [hitem]; exact Bool.false_ne_true)]
  split
  · rename_i hline
    exact absurd (List.cons.inj (hcons.symm.trans hline)).1 hbrace
  · rw [h]
    rfl

theorem legible_arranged {t : Tree} {lines : List Line} (h : Arranged t lines) :
    ∀ line ∈ lines, line.Legible := by
  cases h with
  | empty =>
    exact List.forall_mem_singleton.2 (.content ⟨by decide, endsClean_singleton (by decide)⟩
      (by decide) (by decide) fun _ ↦ by simp)
  | entries h => exact legible_entriesAt h

/-- The lines of an arrangement are found again in the text they make up. -/
theorem lines_renderAll {t : Tree} {lines : List Line} (h : Arranged t lines) :
    Text.lines (Line.renderAll lines) = lines.map Line.render := by
  refine lines_unlines fun text hmem ↦ ?_
  obtain ⟨line, hline, rfl⟩ := List.mem_map.1 hmem
  exact Line.clean_render (legible_arranged h line hline)

theorem read_arranged {t : Tree} {lines : List Line} {text : List Char} (h : Arranged t lines)
    (htext : Text.lines text = lines.map Line.render) : read text = .ok ⟨some t, []⟩ := by
  rw [read, htext, sourceOf_render (legible_arranged h), ok_bind]
  cases h with
  | empty => rfl
  | entries h hne =>
    rename_i column entries
    have hclosed : Closes column [] := by
      intro step hstep
      cases hstep
    have hread := reads_entriesAt h 1 [] hclosed
    rw [List.append_nil] at hread
    rcases h.cases_lines with ⟨hnil, -⟩ | ⟨text, more, rfl, hkey⟩
    · exact absurd hnil hne
    · have hnext : next? (numbered 1 (.content column text :: more)) =
          some ⟨[], 1, column, text, numbered 2 more⟩ := rfl
      have hroot : root ⟨[], 1, column, text, numbered 2 more⟩
          (numbered 1 (.content column text :: more)) = .ok (.mapping {} entries, []) :=
        root_startsKey hkey hread
      rw [hnext]
      simp only [hroot, ok_bind]
      rfl

end LayeredConfig.Reader

namespace LayeredConfig.Document

/-- However the lines of a tree are arranged, the tree is read from them. -/
theorem parse_arranged {t : Tree} {lines : List Line} {text : String} (h : Reader.Arranged t lines)
    (htext : Text.lines text.toList = lines.map Line.render) :
    ∃ d, parse text = .ok d ∧ d.tree? = some t := by
  refine ⟨ofFile t, ?_, tree?_ofFile t⟩
  have hfoot : t.withFoot [] = t := by
    cases h <;> rfl
  rw [parse, Reader.read_arranged h htext, ok_bind]
  dsimp only
  rw [hfoot]
  rfl

theorem parse_arranged_hosts :
    let box : Tree := .mapping {} [(.scalar {} "name" .plain, .scalar {} "it's" .singleQuoted),
      (.scalar {} "os" .plain, .scalar {} "" .plain)]
    let list : Tree := .sequence {} [.scalar {} "a\tb" .doubleQuoted, .sequence {} []]
    let aliases : Tree := .mapping {} [(.scalar {} "ll" .plain, .scalar {} "ls" .plain)]
    let t : Tree := .mapping {} [(.scalar {} "hosts" .plain, .sequence {} [box, list]),
      (.scalar {} "aliases" .plain, aliases)]
    let text :=
      " hosts:\n -   name: 'it''s'\n     os:\n -\n  - \"a\\tb\"\n  - []\n aliases:\n    ll: ls\n"
    (∃ lines, Reader.Arranged t lines ∧ Text.lines text.toList = lines.map Line.render) ∧
      ∃ d, parse text = .ok d ∧ d.tree? = some t := by
  intro box list aliases t text
  have hbox : Reader.ItemAt 1 box _ _ :=
    @Reader.ItemAt.beside 1 2 _ _ _ (.cons (.plain rfl)
      (@Reader.ValueAt.inline 5 0 _ _ (.scalar (.single (by decide))))
      (.cons (.plain rfl) .empty .nil))
  have hescaped : Inline.Escaped ['a', '\t', 'b'] ['a', '\\', 't', 'b'] :=
    .verbatim (by decide) (by decide) (by decide) (@Inline.Escaped.simple 't' _ _ _ rfl
      (.verbatim (by decide) (by decide) (by decide) .nil))
  have hlist : Reader.ItemAt 1 list _ _ :=
    .sequence (.cons (@Reader.ItemAt.inline 2 0 _ _ (.scalar (.double hescaped)))
      (.cons (@Reader.ItemAt.inline 2 0 _ _ .sequence) .nil)) (List.cons_ne_nil _ _) (by decide)
  have haliases : Reader.ValueAt 1 aliases _ _ :=
    .mapping (@Reader.EntriesAt.cons 4 _ _ _ _ _ _ _ _ (.plain rfl)
      (@Reader.ValueAt.inline 4 0 _ _ (.scalar (.plain rfl))) .nil) (List.cons_ne_nil _ _)
      (by decide)
  have harranged : ∃ lines, Reader.Arranged t lines ∧ text = String.ofList (Line.renderAll lines) :=
    ⟨_, .entries (.cons (.plain rfl)
      (.sequence (.cons hbox (.cons hlist .nil)) (List.cons_ne_nil _ _) (Nat.le_refl 1))
      (.cons (.plain rfl) haliases .nil)) (List.cons_ne_nil _ _), rfl⟩
  obtain ⟨lines, h, htext⟩ := harranged
  have hlines : Text.lines text.toList = lines.map Line.render := by
    rw [htext, String.toList_ofList, Reader.lines_renderAll h]
  exact ⟨⟨lines, h, hlines⟩, parse_arranged h hlines⟩

end LayeredConfig.Document
