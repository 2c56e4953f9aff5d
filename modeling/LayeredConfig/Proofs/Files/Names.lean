import LayeredConfig.Proofs.Files.Walk

/-!
# The names of joined paths

A name that is joined to a path stands behind the names of that path. The directory of the joined
path has the names of the path again, apart from single dots.
-/

namespace LayeredConfig.Path

variable {p : Path} {name : String} {chars rest lead names : List Char}

/-! ## Splitting at slashes -/

theorem splitNames_append (current chars rest : List Char) :
    splitNames current (chars ++ '/' :: rest) = splitNames current chars ++ splitNames [] rest := by
  induction chars generalizing current with
  | nil => rw [List.nil_append, splitNames, splitNames, List.singleton_append]
  | cons c chars ih =>
    rw [List.cons_append]
    by_cases hc : c = '/'
    · subst hc
      rw [splitNames, splitNames, ih, List.cons_append]
    · rw [splitNames, splitNames, ih]
      · exact hc
      · exact hc

theorem splitNames_of_noSlash (h : '/' ∉ chars) (current : List Char) :
    splitNames current chars = [current.reverse ++ chars] := by
  induction chars generalizing current with
  | nil => rw [splitNames, List.append_nil]
  | cons c chars ih =>
    rw [splitNames, ih (List.not_mem_of_not_mem_cons h), List.reverse_cons, List.append_assoc,
      List.singleton_append]
    exact fun heq ↦ List.ne_of_not_mem_cons h heq.symm

/-- The names in a text, apart from single dots. -/
def properNames (chars : List Char) : List (List Char) :=
  ((splitNames [] chars).filter (!·.isEmpty)).filter (· ≠ ['.'])

theorem properNames_append (chars rest : List Char) :
    properNames (chars ++ '/' :: rest) = properNames chars ++ properNames rest := by
  rw [properNames, splitNames_append, List.filter_append, List.filter_append]
  rfl

theorem properNames_slash (rest : List Char) : properNames ('/' :: rest) = properNames rest :=
  properNames_append [] rest

theorem properNames_dot_slash (rest : List Char) :
    properNames ('.' :: '/' :: rest) = properNames rest :=
  properNames_append ['.'] rest

theorem undotted_steps (p : Path) : Disk.undotted p.steps = Disk.undotted p.names := by
  have hdot : Disk.undotted (if p.hasTrailingSlash then ["."] else []) = [] := by
    split <;> rfl
  rw [steps, Disk.undotted_append, hdot, List.append_nil]

theorem undotted_names (p : Path) :
    Disk.undotted p.names = (properNames p.chars).map String.ofList := by
  have hnames : ∀ chars, decide (String.ofList chars ≠ ".") = decide (chars ≠ ['.']) := by
    intro chars
    rw [decide_eq_decide, ne_eq, ne_eq, ← String.toList_inj, String.toList_ofList]
    rfl
  rw [names, Disk.undotted, List.filter_map, properNames]
  exact congrArg _ (List.filter_congr fun chars _ ↦ hnames chars)

/-! ## What a parent takes away -/

theorem dropEmptyNames_suffix (names : List Char) : dropEmptyNames names <:+ names := by
  fun_induction dropEmptyNames names with
  | case1 rest ih => exact ih.trans (List.suffix_cons ..)
  | case2 => exact List.nil_suffix
  | case3 rest ih => exact (ih.trans (List.suffix_cons ..)).trans (List.suffix_cons ..)
  | case4 names => exact List.suffix_refl names

/-- What says nothing at the end of a text can be dropped. -/
theorem properNames_dropEmptyNames (names : List Char) :
    properNames (dropEmptyNames names).reverse = properNames names.reverse := by
  fun_induction dropEmptyNames names with
  | case1 rest ih =>
    rw [ih, List.reverse_cons, properNames_append]
    exact (List.append_nil _).symm
  | case2 => rfl
  | case3 rest ih =>
    rw [ih, List.reverse_cons, List.reverse_cons, List.append_assoc]
    exact ((properNames_append _ ['.']).trans (List.append_nil _)).symm
  | case4 => rfl

/-- The lead adds no names, and tells whether the text starts at the root. -/
theorem splitLead_cases (h : splitLead chars = (lead, names)) :
    chars = lead ++ names ∧ (lead = ['/'] ∨ lead = ['.'] ∧ (names = [] ∨ names.head? = some '/') ∨
      lead = [] ∧ names.head? ≠ some '/') := by
  unfold splitLead at h
  split at h
  · obtain ⟨rfl, rfl⟩ := Prod.mk.inj h
    exact ⟨rfl, .inl rfl⟩
  · obtain ⟨rfl, rfl⟩ := Prod.mk.inj h
    exact ⟨rfl, .inr (.inl ⟨rfl, .inl rfl⟩)⟩
  · obtain ⟨rfl, rfl⟩ := Prod.mk.inj h
    exact ⟨rfl, .inr (.inl ⟨rfl, .inr rfl⟩)⟩
  · rename_i hslash _ _
    obtain ⟨rfl, rfl⟩ := Prod.mk.inj h
    refine ⟨rfl, .inr (.inr ⟨rfl, fun hhead ↦ ?_⟩)⟩
    obtain ⟨more, hmore⟩ := List.head?_eq_some_iff.1 hhead
    exact hslash more hmore

theorem properNames_lead (h : splitLead chars = (lead, names)) {start : List Char}
    (hstart : start <+: names) : properNames (lead ++ start) = properNames start := by
  obtain ⟨-, rfl | ⟨rfl, hnames⟩ | ⟨rfl, -⟩⟩ := splitLead_cases h
  · exact properNames_slash start
  · cases start with
    | nil => rfl
    | cons c start =>
      obtain ⟨more, rfl⟩ := hstart
      rcases hnames with hnames | hnames
      · cases hnames
      · obtain rfl := Option.some.inj hnames
        exact (properNames_dot_slash start).trans (properNames_slash start).symm
  · rfl

theorem head?_lead (h : splitLead chars = (lead, names)) {start : List Char}
    (hstart : start <+: names) :
    (lead ++ start).head? = some '/' ↔ chars.head? = some '/' := by
  obtain ⟨rfl, rfl | ⟨rfl, hnames⟩ | ⟨rfl, hnames⟩⟩ := splitLead_cases h
  · exact Iff.rfl
  · exact Iff.rfl
  · cases start with
    | nil => exact ⟨(fun h ↦ by cases h), fun hhead ↦ absurd hhead hnames⟩
    | cons c start =>
      obtain ⟨more, rfl⟩ := hstart
      exact Iff.rfl

/-- A text to which a name can be joined: nothing, or something that ends in a slash. -/
def IsBase (base : List Char) : Prop :=
  base = [] ∨ ∃ chars, base = chars ++ ['/']

theorem IsBase.of_append {base : List Char} (before : List Char) (h : IsBase (before ++ base)) :
    IsBase base := by
  rcases h with h | ⟨chars, h⟩
  · exact .inl (List.append_eq_nil_iff.1 h).2
  · rcases List.eq_nil_or_concat base with rfl | ⟨start, c, rfl⟩
    · exact .inl rfl
    · rw [List.concat_eq_append, ← List.append_assoc] at h
      obtain ⟨-, hlast⟩ := List.append_inj' h rfl
      exact .inr ⟨start, by rw [List.concat_eq_append, hlast]⟩

/-- The lead of a text with a name at its end is the lead of what stands before the name. -/
theorem splitLead_append {base name : List Char} (h : splitLead (base ++ name) = (lead, names))
    (hbase : IsBase base) (hslash : '/' ∉ name) (hdot : name ≠ ['.']) :
    ∃ rest, names = rest ++ name ∧ base = lead ++ rest ∧ IsBase rest := by
  obtain ⟨htext, rfl | ⟨rfl, hnames⟩ | ⟨rfl, -⟩⟩ := splitLead_cases h
  · cases base with
    | nil =>
      subst htext
      exact absurd (List.mem_cons_self ..) hslash
    | cons c base =>
      obtain ⟨rfl, hrest⟩ := List.cons.inj htext
      exact ⟨base, hrest.symm, rfl, IsBase.of_append ['/'] hbase⟩
  · cases base with
    | nil =>
      subst htext
      rcases hnames with rfl | hnames
      · exact absurd rfl hdot
      · exact absurd (List.mem_cons_of_mem _ (List.mem_of_head? hnames)) hslash
    | cons c base =>
      obtain ⟨rfl, hrest⟩ := List.cons.inj htext
      exact ⟨base, hrest.symm, rfl, IsBase.of_append ['.'] hbase⟩
  · exact ⟨base, htext.symm, rfl, hbase⟩

theorem dropWhile_name {base name : List Char} (hbase : IsBase base) (hslash : '/' ∉ name) :
    (base ++ name).reverse.dropWhile (· != '/') = base.reverse := by
  have hall : ∀ c ∈ name.reverse, (c != '/') = true := by
    intro c hc
    rw [bne_iff_ne]
    rintro rfl
    exact hslash (List.mem_reverse.1 hc)
  rw [List.reverse_append, List.dropWhile_append_of_pos hall]
  rcases hbase with rfl | ⟨chars, rfl⟩
  · rfl
  · rw [List.reverse_concat, List.dropWhile_cons]
    rfl

theorem dropEmptyNames_cons {c : Char} (hslash : c ≠ '/') (hdot : c ≠ '.') (chars : List Char) :
    dropEmptyNames (c :: chars) = c :: chars := by
  rw [dropEmptyNames]
  · exact fun more h ↦ hslash (List.cons.inj h).1
  · exact fun h ↦ hdot (List.cons.inj h).1
  · exact fun more h ↦ hdot (List.cons.inj h).1
/-- The parent of a text with a name at its end. -/
theorem parentChars?_append {base name : List Char} (hbase : IsBase base) (hslash : '/' ∉ name)
    (hlast : ∀ c ∈ name.getLast?, c ≠ '.') (hname : name ≠ []) :
    ∃ parent, parentChars? (base ++ name) = some parent ∧ parent <+: base ++ name ∧
      properNames parent = properNames base ∧
      (parent.head? = some '/' ↔ (base ++ name).head? = some '/') := by
  rcases hlead : splitLead (base ++ name) with ⟨lead, names⟩
  have hdot : name ≠ ['.'] := by
    rintro rfl
    exact hlast '.' rfl rfl
  obtain ⟨rest, rfl, rfl, hrest⟩ := splitLead_append hlead hbase hslash hdot
  have hwhole : dropEmptyNames (rest ++ name).reverse = (rest ++ name).reverse := by
    rcases List.eq_nil_or_concat name with rfl | ⟨start, c, rfl⟩
    · exact absurd rfl hname
    · rw [List.concat_eq_append, ← List.append_assoc, List.reverse_concat]
      apply dropEmptyNames_cons
      · rintro rfl
        exact hslash (by simp)
      · exact hlast c (by simp)
  have hparent : parentChars? (lead ++ rest ++ name) =
      some (lead ++ (dropEmptyNames rest.reverse).reverse) := by
    rw [parentChars?, hlead]
    dsimp only
    rw [hwhole]
    split
    · rename_i hnil
      exact absurd (List.append_eq_nil_iff.1 (List.reverse_eq_nil_iff.1 hnil)).2 hname
    · rw [dropWhile_name hrest hslash]
  have hstart : (dropEmptyNames rest.reverse).reverse <+: rest ++ name := by
    rw [← List.reverse_suffix, List.reverse_reverse, List.reverse_append]
    exact (dropEmptyNames_suffix _).trans (List.suffix_append ..)
  refine ⟨_, hparent, ?_, ?_, head?_lead hlead hstart⟩
  · rw [List.append_assoc]
    exact (List.prefix_append_right_inj lead).2 hstart
  rw [properNames_lead hlead hstart, properNames_dropEmptyNames, List.reverse_reverse,
    properNames_lead hlead (List.prefix_append ..)]

/-! ## Joined paths -/

/-- A text that can be joined to a path as one name. -/
structure IsName (name : String) : Prop where
  nonempty : name.toList ≠ []
  noSlash : '/' ∉ name.toList
  noDotLast : ∀ c ∈ name.toList.getLast?, c ≠ '.'

theorem IsName.ne_dot (h : IsName name) : name ≠ "." := by
  rintro rfl
  exact h.noDotLast '.' rfl rfl

theorem IsName.ne_dots (h : IsName name) : name ≠ ".." := by
  rintro rfl
  exact h.noDotLast '.' rfl rfl

theorem nonemptyNames_nil : (splitNames [] []).filter (!·.isEmpty) = [] := rfl

theorem nonemptyNames_append (chars rest : List Char) :
    (splitNames [] (chars ++ '/' :: rest)).filter (!·.isEmpty) =
      (splitNames [] chars).filter (!·.isEmpty) ++ (splitNames [] rest).filter (!·.isEmpty) := by
  rw [splitNames_append, List.filter_append]

/-- A joined path ends with the name. Before it stands a text with the names of the path. -/
theorem chars_join (h : IsName name) (p : Path) :
    ∃ base, IsBase base ∧ (p.join name).chars = base ++ name.toList ∧
      (splitNames [] base).filter (!·.isEmpty) = (splitNames [] p.chars).filter (!·.isEmpty) ∧
      (p.chars ≠ [] → base.head? = p.chars.head?) := by
  have hhead : ¬ name.toList.head? = some '/' := fun hhead ↦ h.noSlash (List.mem_of_head? hhead)
  rw [join, if_neg hhead, chars]
  split
  · rename_i hbase
    refine ⟨p.chars, ?_, String.toList_append .., rfl, fun _ ↦ rfl⟩
    rcases Bool.or_eq_true_iff.1 hbase with hempty | hlast
    · exact .inl (String.toList_eq_nil_iff.2 (String.isEmpty_iff.1 hempty))
    · exact .inr (List.getLast?_eq_some_iff.1 (of_decide_eq_true hlast))
  · refine ⟨p.chars ++ ['/'], .inr ⟨_, rfl⟩, ?_, ?_, fun hne ↦ ?_⟩
    · rw [String.toList_append, String.toList_append]
      rfl
    · rw [nonemptyNames_append, nonemptyNames_nil, List.append_nil]
    · cases hp : p.chars with
      | nil => exact absurd hp hne
      | cons => rfl

theorem names_join (h : IsName name) (p : Path) : (p.join name).names = p.names ++ [name] := by
  obtain ⟨base, hbase, hchars, hnames, -⟩ := chars_join h p
  have hlast : (splitNames [] name.toList).filter (!·.isEmpty) = [name.toList] := by
    rw [splitNames_of_noSlash h.noSlash, List.reverse_nil, List.nil_append, List.filter_cons,
      List.isEmpty_eq_false_iff.2 h.nonempty]
    rfl
  have hsplit : (splitNames [] (base ++ name.toList)).filter (!·.isEmpty) =
      (splitNames [] base).filter (!·.isEmpty) ++ [name.toList] := by
    rcases hbase with rfl | ⟨chars, rfl⟩
    · exact hlast
    · rw [List.append_assoc, List.singleton_append, nonemptyNames_append, nonemptyNames_append,
        hlast, nonemptyNames_nil, List.append_nil]
  rw [names, hchars, hsplit, hnames, List.map_append, names, List.map_singleton, String.ofList_toList]

theorem hasTrailingSlash_join (h : IsName name) (p : Path) :
    (p.join name).hasTrailingSlash = false := by
  obtain ⟨base, -, hchars, -, -⟩ := chars_join h p
  rw [hasTrailingSlash, hchars, decide_eq_false_iff_not, List.getLast?_append,
    List.getLast?_eq_some_getLast h.nonempty]
  exact fun hlast ↦ h.noSlash (Option.some.inj hlast ▸ List.getLast_mem h.nonempty)

theorem steps_join (h : IsName name) (p : Path) : (p.join name).steps = p.names ++ [name] := by
  rw [steps, hasTrailingSlash_join h, names_join h]
  exact List.append_nil _

theorem isAbsolute_join (h : IsName name) (hp : p.isEmpty = false) :
    (p.join name).isAbsolute = p.isAbsolute := by
  obtain ⟨base, -, hchars, -, hhead⟩ := chars_join h p
  have hne : p.chars ≠ [] := by
    rw [isEmpty, Bool.eq_false_iff] at hp
    exact fun hnil ↦ hp (String.isEmpty_iff.2 (String.toList_eq_nil_iff.1 hnil))
  rw [isAbsolute, isAbsolute, hchars, List.head?_append, hhead hne, List.head?_eq_some_head hne]
  rfl

/-- Names that are joined to one path start at the same place. -/
theorem isAbsolute_join_eq {other : String} (h : IsName name) (hother : IsName other) (p : Path) :
    (p.join other).isAbsolute = (p.join name).isAbsolute := by
  cases hp : p.isEmpty with
  | false => rw [isAbsolute_join h hp, isAbsolute_join hother hp]
  | true =>
    have hrelative {part : String} (hpart : IsName part) : (p.join part).isAbsolute = false := by
      have hhead : ¬ part.toList.head? = some '/' :=
        fun hhead ↦ hpart.noSlash (List.mem_of_head? hhead)
      have hempty : p.text = "" := String.isEmpty_iff.1 hp
      rw [join, if_neg hhead, hp, Bool.true_or, if_pos rfl, isAbsolute, chars, hempty,
        String.empty_append]
      exact decide_eq_false hhead
    rw [hrelative h, hrelative hother]

/-- What is written behind a joined name belongs to the name. -/
theorem text_join_append (h : IsName name) (p : Path) (ending : String) :
    (p.join name).text ++ ending = (p.join (name ++ ending)).text := by
  have hhead : ¬ name.toList.head? = some '/' := fun hhead ↦ h.noSlash (List.mem_of_head? hhead)
  have hhead' : ¬ (name ++ ending).toList.head? = some '/' := by
    rw [String.toList_append, List.head?_append, List.head?_eq_some_head h.nonempty, Option.some_or]
    rwa [List.head?_eq_some_head h.nonempty] at hhead
  rw [join, join, if_neg hhead, if_neg hhead']
  split
  · exact String.append_assoc
  · rw [String.append_assoc]

/-! ## Directories -/

theorem isEmpty_directory (p : Path) : p.directory.isEmpty = false := by
  unfold directory
  split
  · rfl
  · split
    · rfl
    · rename_i hne
      exact Bool.eq_false_iff.2 hne

/-- The directory of a path, by the text of the parent. -/
theorem chars_directory {parent : List Char} (h : parentChars? p.chars = some parent) :
    p.directory.chars = if parent = [] then ['.'] else parent := by
  have hchars : (⟨String.ofList parent⟩ : Path).chars = parent := String.toList_ofList
  rw [directory, parent?, h]
  dsimp only [Option.map_some]
  cases parent with
  | nil => rfl
  | cons c parent =>
    rw [if_neg, if_neg (List.cons_ne_nil c parent)]
    · exact hchars
    · rw [isEmpty, String.isEmpty_iff, ← String.toList_eq_nil_iff, String.toList_ofList]
      exact List.cons_ne_nil c parent

theorem directory_join (h : IsName name) (p : Path) :
    Disk.undotted (p.join name).directory.steps = Disk.undotted p.names ∧
      (p.join name).directory.isAbsolute = (p.join name).isAbsolute := by
  obtain ⟨base, hbase, hchars, hnames, -⟩ := chars_join h p
  obtain ⟨parent, hparent, -, hproper, hhead⟩ :=
    parentChars?_append hbase h.noSlash h.noDotLast h.nonempty
  rw [← hchars] at hparent hhead
  rw [undotted_steps, undotted_names, undotted_names, isAbsolute, isAbsolute,
    chars_directory hparent]
  have hbase' : properNames base = properNames p.chars := congrArg (List.filter _) hnames
  rw [← hbase', ← hproper, decide_eq_decide, ← hhead]
  split
  · rename_i hnil
    subst hnil
    exact ⟨rfl, by decide⟩
  · exact ⟨rfl, Iff.rfl⟩

theorem isEmpty_of_checkPath (h : Disk.checkPath p = .ok ()) : p.isEmpty = false := by
  unfold Disk.checkPath at h
  split at h
  · cases h
  split at h
  · cases h
  · rename_i hempty
    exact Bool.eq_false_iff.2 hempty

theorem checkPath_of_prefix {q : Path} (hp : Disk.checkPath p = .ok ()) (h : q.chars <+: p.chars)
    (hq : q.isEmpty = false) : Disk.checkPath q = .ok () := by
  obtain ⟨more, hmore⟩ := h
  have htext : p.text = q.text ++ String.ofList more := by
    rw [← String.toList_inj, String.toList_append, String.toList_ofList]
    exact hmore.symm
  unfold Disk.checkPath at hp
  split at hp
  · cases hp
  rename_i hnul
  split at hp
  · cases hp
  split at hp
  · cases hp
  rename_i hsize
  have hnul' : ¬ q.chars.contains '\x00' = true := by
    rw [List.contains_iff_mem] at hnul ⊢
    exact fun hmem ↦ hnul (hmore ▸ List.mem_append_left more hmem)
  have hsize' : ¬ q.text.utf8ByteSize > Disk.maxPathBytes := by
    rw [htext, String.utf8ByteSize_append] at hsize
    omega
  rw [Disk.checkPath, if_neg hnul', hq, if_neg Bool.false_ne_true, if_neg hsize']

/-- The directory of a path is one that can be asked for when the path is. -/
theorem checkPath_directory (h : IsName name) (hpath : Disk.checkPath (p.join name) = .ok ()) :
    Disk.checkPath (p.join name).directory = .ok () := by
  obtain ⟨base, hbase, hchars, -, -⟩ := chars_join h p
  obtain ⟨parent, hparent, hprefix, -, -⟩ :=
    parentChars?_append hbase h.noSlash h.noDotLast h.nonempty
  rw [← hchars] at hparent hprefix
  have hdirectory := chars_directory hparent
  split at hdirectory
  · have hdot : (p.join name).directory = ⟨"."⟩ := congrArg Path.mk (String.toList_inj.1 hdirectory)
    rw [hdot]
    rfl
  · exact checkPath_of_prefix hpath (hdirectory ▸ hprefix) (isEmpty_directory _)

end LayeredConfig.Path
