import LayeredConfig.Proofs.Files.Additions

/-!
# Directories that are made

When the directory of a file is not there, it is made, and the directories above it as well. Along
names that lead down only, nothing else is made: a first directory at a free name, and the ones
below it on the way to the directory of the file.
-/

namespace LayeredConfig

namespace Path

variable {p : Path} {chars rest lead names parent : List Char}

/-! ## Names of parents -/

theorem properNames_of_name {name : List Char} (hslash : '/' ∉ name) (hne : name ≠ [])
    (hdot : name ≠ ['.']) : properNames name = [name] := by
  rw [properNames, splitNames_of_noSlash hslash, List.reverse_nil, List.nil_append, List.filter_cons,
    List.isEmpty_eq_false_iff.2 hne]
  exact List.filter_cons_of_pos (decide_eq_true hdot)

/-- What says nothing was dropped, so the last name is a proper one. -/
theorem dropEmptyNames_eq_cons {c : Char} (h : dropEmptyNames names = c :: rest) :
    c ≠ '/' ∧ ¬ (c = '.' ∧ (rest = [] ∨ rest.head? = some '/')) := by
  fun_induction dropEmptyNames names with
  | case1 _ ih => exact ih h
  | case2 => cases h
  | case3 _ ih => exact ih h
  | case4 names hslash hdot hdots =>
    subst h
    refine ⟨fun hc ↦ hslash rest (by rw [hc]), ?_⟩
    rintro ⟨rfl, rfl | hhead⟩
    · exact hdot rfl
    · obtain ⟨more, rfl⟩ := List.head?_eq_some_iff.1 hhead
      exact hdots more rfl

/-- The last name of a text that is given in reverse, and what stands before it. -/
theorem properNames_reverse {c : Char} (hslash : c ≠ '/')
    (hdot : ¬ (c = '.' ∧ (rest = [] ∨ rest.head? = some '/'))) :
    ∃ name, properNames (c :: rest).reverse =
      properNames ((c :: rest).dropWhile (· != '/')).reverse ++ [name] := by
  have hsplit := List.takeWhile_append_dropWhile (p := (· != '/')) (l := c :: rest)
  have hnoSlash : '/' ∉ ((c :: rest).takeWhile (· != '/')).reverse := by
    rw [List.mem_reverse]
    intro hmem
    have hall : ((c :: rest).takeWhile (· != '/')).all (· != '/') = true := List.all_takeWhile
    exact absurd rfl (bne_iff_ne.1 (List.all_eq_true.1 hall '/' hmem))
  have hfirst : (c :: rest).takeWhile (· != '/') = c :: rest.takeWhile (· != '/') :=
    List.takeWhile_cons_of_pos (bne_iff_ne.2 hslash)
  have hname : properNames ((c :: rest).takeWhile (· != '/')).reverse =
      [((c :: rest).takeWhile (· != '/')).reverse] := by
    apply properNames_of_name hnoSlash
    · rw [hfirst, ne_eq, List.reverse_eq_nil_iff]
      exact List.cons_ne_nil _ _
    · rw [hfirst]
      intro heq
      obtain ⟨rfl, hrest⟩ := List.cons.inj (List.reverse_eq_iff.1 heq)
      refine hdot ⟨rfl, ?_⟩
      cases rest with
      | nil => exact .inl rfl
      | cons next rest =>
        by_cases hnext : next = '/'
        · exact .inr (congrArg some hnext)
        · have hbne : (next != '/') = true := bne_iff_ne.2 hnext
          rw [List.takeWhile_cons, if_pos hbne] at hrest
          cases hrest
  refine ⟨((c :: rest).takeWhile (· != '/')).reverse, ?_⟩
  conv_lhs => rw [← hsplit, List.reverse_append]
  cases hdrop : (c :: rest).dropWhile (· != '/') with
  | nil => exact hname
  | cons slash before =>
    have hhead := List.head?_dropWhile_not (· != '/') (c :: rest)
    rw [hdrop] at hhead
    obtain rfl : slash = '/' := by simpa using hhead
    rw [List.reverse_cons, List.append_assoc, List.singleton_append, properNames_append, hname,
      properNames_append]
    exact congrArg (· ++ _) (List.append_nil _).symm

/-- The parent of a text has its names but the last. -/
theorem properNames_parentChars? (h : parentChars? chars = some parent) :
    properNames parent = (properNames chars).dropLast := by
  rcases hlead : splitLead chars with ⟨lead, names⟩
  have hwhole : properNames chars = properNames (dropEmptyNames names.reverse).reverse := by
    have hnames := properNames_lead hlead (List.prefix_refl names)
    rw [← (splitLead_cases hlead).1] at hnames
    rw [hnames, properNames_dropEmptyNames, List.reverse_reverse]
  rw [parentChars?, hlead] at h
  dsimp only at h
  split at h
  · rename_i hnil
    split at h
    · obtain rfl := Option.some.inj h
      rw [hwhole, hnil]
      rfl
    · cases h
  · rename_i hne
    obtain rfl := Option.some.inj h
    cases hlast : dropEmptyNames names.reverse with
    | nil => exact absurd hlast hne
    | cons c rest =>
      have hprefix : (dropEmptyNames ((c :: rest).dropWhile (· != '/'))).reverse <+: names := by
        rw [← List.reverse_suffix, List.reverse_reverse]
        exact (dropEmptyNames_suffix _).trans ((List.dropWhile_suffix _).trans
          (hlast ▸ dropEmptyNames_suffix _))
      obtain ⟨hslash, hdot⟩ := dropEmptyNames_eq_cons hlast
      obtain ⟨name, hname⟩ := properNames_reverse hslash hdot
      rw [properNames_lead hlead hprefix, properNames_dropEmptyNames, hwhole, hlast, hname,
        List.dropLast_concat]

theorem head?_parentChars? (h : parentChars? chars = some parent) :
    parent.head? = some '/' ↔ chars.head? = some '/' := by
  rcases hlead : splitLead chars with ⟨lead, names⟩
  rw [parentChars?, hlead] at h
  dsimp only at h
  split at h
  · split at h
    · rename_i hdot
      obtain rfl := Option.some.inj h
      subst hdot
      rw [← head?_lead hlead (List.nil_prefix)]
      decide
    · cases h
  · obtain rfl := Option.some.inj h
    apply head?_lead hlead
    rw [← List.reverse_suffix, List.reverse_reverse]
    exact (dropEmptyNames_suffix _).trans ((List.dropWhile_suffix _).trans (dropEmptyNames_suffix _))

/-- A text without a parent has no names. -/
theorem properNames_of_parentChars?_none (h : parentChars? chars = none) : properNames chars = [] := by
  rcases hlead : splitLead chars with ⟨lead, names⟩
  have hnames := properNames_lead hlead (List.prefix_refl names)
  rw [← (splitLead_cases hlead).1] at hnames
  rw [parentChars?, hlead] at h
  dsimp only at h
  split at h
  · rename_i hnil
    rw [hnames, ← List.reverse_reverse names, ← properNames_dropEmptyNames, hnil]
    rfl
  · cases h

/-- A directory has the names of its parent and one more, or none at all. -/
theorem undotted_names_parent (h : parentChars? p.chars = some parent) :
    Disk.undotted (Path.mk (String.ofList parent)).names = (Disk.undotted p.names).dropLast := by
  rw [undotted_names, undotted_names, ← List.map_dropLast, ← properNames_parentChars? h, chars,
    String.toList_ofList]

theorem isAbsolute_parent (h : parentChars? p.chars = some parent) :
    (Path.mk (String.ofList parent)).isAbsolute = p.isAbsolute := by
  rw [isAbsolute, isAbsolute, decide_eq_decide, chars, String.toList_ofList]
  exact head?_parentChars? h

end Path

namespace Disk

variable {d d' : Disk} {p q : Path} {l base directory goal first : Location} {name : String}
  {links left : Nat} {steps steps' rest : List String} {node : FileNode}

theorem undotted_undotted (steps : List String) : undotted (undotted steps) = undotted steps :=
  List.filter_eq_self.2 fun _ hmem ↦ (List.mem_filter.1 hmem).2

/-! ## Ways to free names -/

/-- A free name that is found without following a last link is the last name of the path. -/
theorem arrives_of_walk_free (h : d.walk false links base steps = .ok (.free directory name)) :
    ∃ before left, steps = before ++ [name] ∧ d.Arrives links base before left directory ∧
      name ≠ "." ∧ name ≠ ".." ∧ ¬ name.utf8ByteSize > maxNameBytes := by
  induction links, base, steps using walk_induction with
  | nil =>
    rw [walk_nil] at h
    cases h
  | dot links base rest ih =>
    rw [walk_dot] at h
    obtain ⟨before, left, rfl, harrives, hproper⟩ := ih h
    exact ⟨"." :: before, left, rfl, .dot harrives, hproper⟩
  | up links base rest ih =>
    rw [walk_up] at h
    obtain ⟨before, left, rfl, harrives, hproper⟩ := ih h
    exact ⟨".." :: before, left, rfl, .up harrives, hproper⟩
  | name links base step rest hdot hup ih ihLink =>
    rw [walk_name hdot hup] at h
    split at h
    · cases h
    rename_i hsize
    split at h
    · split at h
      · rename_i hrest
        cases h
        exact ⟨[], links, congrArg _ (List.isEmpty_iff.1 hrest), .done links _, hdot, hup, hsize⟩
      · cases h
    · rename_i hnode
      obtain ⟨before, left, rfl, harrives, hproper⟩ := ih h
      exact ⟨step :: before, left, rfl, .enter hdot hup hsize hnode harrives, hproper⟩
    · split at h <;> cases h
    · rename_i target hnode
      split at h
      · cases h
      rename_i hlast
      cases links with
      | zero => cases h
      | succ links =>
        obtain ⟨before, left, heq, harrives, hproper⟩ := ihLink links _ target rfl h
        rcases List.eq_nil_or_concat rest with rfl | ⟨more, last, rfl⟩
        · exact absurd rfl hlast
        · rw [List.concat_eq_append, ← List.append_assoc] at heq
          obtain ⟨rfl, hname⟩ := List.append_inj' heq rfl
          rw [(List.cons.inj hname).1, List.concat_eq_append]
          exact ⟨step :: more, left, rfl, .follow hdot hup hsize hnode harrives, hproper⟩

/-- Dots are not looked at. -/
theorem trail_of_undotted (h : undotted steps' = undotted steps) :
    d.trail links base steps' = d.trail links base steps := by
  have hdots {before : List String} (hbefore : undotted before = []) (links : Nat) (base : Location)
      (rest : List String) : d.trail links base (before ++ rest) = d.trail links base rest := by
    induction before with
    | nil => rfl
    | cons step before ih =>
      obtain ⟨hstep, hrest⟩ := List.forall_mem_cons.1 (List.filter_eq_nil_iff.1 hbefore)
      obtain rfl : step = "." := by simpa using hstep
      rw [List.cons_append, trail, ih (List.filter_eq_nil_iff.2 hrest)]
  induction links, base, steps using walk_induction generalizing steps' with
  | nil links base =>
    rw [← List.append_nil steps', hdots h]
  | dot links base rest ih =>
    rw [trail]
    exact ih h
  | up links base rest ih =>
    rw [undotted_cons (by decide)] at h
    obtain ⟨before, more, rfl, hbefore, hmore⟩ := undotted_eq_cons h
    rw [hdots hbefore, trail, trail, ih hmore]
  | name links base name rest hdot hup ih ihLink =>
    rw [undotted_cons hdot] at h
    obtain ⟨before, more, rfl, hbefore, hmore⟩ := undotted_eq_cons h
    rw [hdots hbefore, trail_name hdot hup, trail_name hdot hup, ih hmore]
    congr 1
    split
    · rfl
    · rename_i target hnode
      cases links with
      | zero => rfl
      | succ links =>
        apply ihLink links _ target rfl
        rw [undotted_append, undotted_append, hmore]
    · rfl

theorem mem_trail_append (h : l ∈ d.trail links base steps) (rest : List String) :
    l ∈ d.trail links base (steps ++ rest) := by
  induction links, base, steps using walk_induction with
  | nil =>
    rw [trail] at h
    cases h
  | dot links base steps ih =>
    rw [trail] at h
    rw [List.cons_append, trail]
    exact ih h
  | up links base steps ih =>
    rw [trail] at h
    rw [List.cons_append, trail]
    exact ih h
  | name links base name steps hdot hup ih ihLink =>
    rw [trail_name hdot hup] at h
    rw [List.cons_append, trail_name hdot hup]
    rcases List.mem_cons.1 h with rfl | h
    · exact List.mem_cons_self
    · apply List.mem_cons_of_mem
      split at h
      · exact ih h
      · rename_i target hnode
        cases links with
        | zero => cases h
        | succ links =>
          have hmem := ihLink links _ target rfl h
          rw [List.append_assoc] at hmem
          exact hmem
      · cases h

/-- The entry that is named behind the way to a directory is looked at. -/
theorem Arrives.mem_trail (h : d.Arrives links base steps left goal) (hdot : name ≠ ".")
    (hup : name ≠ "..") : goal ++ [name] ∈ d.trail links base (steps ++ [name]) := by
  induction h with
  | done links directory =>
    rw [List.nil_append, trail_name hdot hup]
    exact List.mem_cons_self
  | dot _ ih =>
    rw [List.cons_append, trail]
    exact ih
  | up _ ih =>
    rw [List.cons_append, trail]
    exact ih
  | enter hdot' hup' _ hnode _ ih =>
    rw [List.cons_append, trail_name hdot' hup', hnode]
    exact List.mem_cons_of_mem _ ih
  | follow hdot' hup' _ hnode _ ih =>
    rw [List.append_assoc] at ih
    rw [List.cons_append, trail_name hdot' hup', hnode]
    exact List.mem_cons_of_mem _ ih

/-- Two walks along the same names come to the same directory. -/
theorem Arrives.goal_eq {links' left' : Nat} {goal' : Location}
    (h : d.Arrives links base steps left goal) (h' : d.Arrives links' base steps' left' goal')
    (heq : undotted steps' = undotted steps) : goal' = goal := by
  have hplace := walk_unique h.walk_eq (h'.of_undotted heq.symm).walk_eq
  cases hplace
  rfl

/-! ## Directories that were made -/

/-- Every entry stands in a directory. -/
def IsTree (d : Disk) : Prop :=
  ∀ l node, d.node? l = some node → d.HasDirectory l.dropLast

/-- Nothing stands below a free name. -/
theorem isTree_of_nodes (h : ∀ entry ∈ d.nodes, d.HasDirectory entry.1.dropLast) : d.IsTree := by
  intro l node hnode
  by_cases hroot : l = []
  · rw [hroot]
    exact .root
  · rw [node?_of_ne_nil hroot, List.lookup_eq_some_iff] at hnode
    obtain ⟨front, rest, hnodes, -⟩ := hnode
    apply h (l, node)
    rw [hnodes]
    exact List.mem_append_right _ List.mem_cons_self

theorem IsTree.node?_below (h : d.IsTree) (hfree : d.node? first = none) (hbelow : first <+: l) :
    d.node? l = none := by
  rw [Option.eq_none_iff_forall_ne_some]
  intro node hnode
  by_cases heq : l = first
  · subst heq
    rw [hfree] at hnode
    cases hnode
  · rw [(h l node hnode).node?_of_above hbelow heq] at hfree
    cases hfree

/-- Directories were made on the way to `goal`, the first one at a free name. -/
structure MadeFrom (d d' : Disk) (first goal : Location) : Prop where
  workingDirectory : d'.workingDirectory = d.workingDirectory
  wasFree : d.node? first = none
  isPrefix : first <+: goal
  made : ∀ l, first <+: l → l <+: goal → d'.node? l = some .directory
  frame : ∀ l, ¬ (first <+: l ∧ l <+: goal) → d'.node? l = d.node? l

theorem MadeFrom.extends (h : MadeFrom d d' first goal) (htree : d.IsTree) : Extends d d' := by
  refine ⟨h.workingDirectory, fun l node hnode _ ↦ ?_⟩
  rw [h.frame l, hnode]
  rintro ⟨hbelow, -⟩
  rw [htree.node?_below h.wasFree hbelow] at hnode
  cases hnode

theorem madeFrom_insert (hfree : d.node? first = none) (hne : first ≠ []) :
    MadeFrom d (d.insert first .directory) first first := by
  refine ⟨rfl, hfree, List.prefix_refl _, fun l habove hbelow ↦ ?_, fun l hl ↦ ?_⟩
  · obtain rfl := habove.eq_of_length (Nat.le_antisymm habove.length_le hbelow.length_le)
    exact node?_insert_self hne
  · apply node?_insert_of_ne
    rintro rfl
    exact hl ⟨List.prefix_refl _, List.prefix_refl _⟩

theorem MadeFrom.insert (h : MadeFrom d d' first goal) :
    MadeFrom d (d'.insert (goal ++ [name]) .directory) first (goal ++ [name]) := by
  refine ⟨h.workingDirectory, h.wasFree, h.isPrefix.trans (List.prefix_append ..),
    fun l hfirst hl ↦ ?_, fun l hl ↦ ?_⟩
  · rcases List.prefix_concat_iff.1 hl with rfl | hgoal
    · exact node?_insert_self (List.concat_ne_nil _ _)
    · rw [node?_insert_of_ne, h.made l hfirst hgoal]
      rintro rfl
      have hlength := hgoal.length_le
      rw [List.length_append, List.length_singleton] at hlength
      omega
  · rw [node?_insert_of_ne, h.frame l fun hboth ↦ hl ⟨hboth.1, hboth.2.trans (List.prefix_append ..)⟩]
    rintro rfl
    exact hl ⟨h.isPrefix.trans (List.prefix_append ..), List.prefix_refl _⟩

theorem Arrives.concat (h : d.Arrives links base steps left goal) (hdot : name ≠ ".")
    (hup : name ≠ "..") (hsize : ¬ name.utf8ByteSize > maxNameBytes)
    (hnode : d.node? (goal ++ [name]) = some .directory) :
    d.Arrives links base (steps ++ [name]) left (goal ++ [name]) := by
  induction h with
  | done links directory => exact .enter hdot hup hsize hnode (.done links _)
  | dot _ ih => exact .dot (ih hnode)
  | up _ ih => exact .up (ih hnode)
  | enter hdot' hup' hsize' hnode' _ ih => exact .enter hdot' hup' hsize' hnode' (ih hnode)
  | follow hdot' hup' hsize' hnode' _ ih =>
    have harrives := ih hnode
    rw [List.append_assoc] at harrives
    exact .follow hdot' hup' hsize' hnode' harrives

/-- The directories along some names are there, or they were made. -/
inductive Made (d : Disk) (links : Nat) (base : Location) (steps : List String) (goal : Location) :
    Disk → Prop
  | there : Made d links base steps goal d
  | made {d' : Disk} {first : Location} (h : MadeFrom d d' first goal)
      (hfirst : first ∈ d.trail links base steps) : Made d links base steps goal d'

theorem Made.extends (h : Made d links base steps goal d') (htree : d.IsTree) : Extends d d' := by
  cases h with
  | there => exact .refl d
  | made h => exact h.extends htree

variable {d₁ d₂ : Disk}

/-- The directory that was made stands on the way. -/
theorem made_of_createDirectory (hcreate : d₁.createDirectory q = .ok d₂)
    (hstart : d₁.start q = d.start q)
    (hmade : ∀ left goal, d₁.Arrives maxLinks (d.start q) (undotted q.names).dropLast left goal →
      Made d maxLinks (d.start q) (undotted q.names).dropLast goal d₁) :
    ∃ left goal, d₂.Arrives maxLinks (d.start q) (undotted q.names) left goal ∧
      Made d maxLinks (d.start q) (undotted q.names) goal d₂ := by
  obtain ⟨place, hresolve, h⟩ := bind_eq_ok_iff.1 hcreate
  cases place with
  | found => cases h
  | free directory name =>
    obtain rfl := Except.ok.inj h
    have hwalk := (resolve_eq_ok hresolve).2
    have hfree := node?_of_walk_free hwalk
    obtain ⟨before, left, hsteps, harrives, hdot, hup, hsize⟩ := arrives_of_walk_free hwalk
    have hnames : undotted q.names = undotted before ++ [name] := by
      rw [← Path.undotted_steps, hsteps, undotted_append]
      exact congrArg _ (undotted_cons hdot [])
    have hbefore : (undotted q.names).dropLast = undotted before := by
      rw [hnames, List.dropLast_concat]
    rw [hstart] at harrives
    have harrives' : d₁.Arrives maxLinks (d.start q) (undotted before) left directory :=
      harrives.of_undotted (undotted_undotted _)
    rw [hbefore] at hmade
    rw [hnames]
    refine ⟨left, directory ++ [name], ?_, ?_⟩
    · exact (harrives'.insert (fileOrFree_of_free hfree) .directory).concat hdot hup hsize
        (node?_insert_self (List.concat_ne_nil _ _))
    · cases hmade left directory harrives' with
      | there => exact .made (madeFrom_insert hfree (List.concat_ne_nil _ _)) (harrives'.mem_trail hdot hup)
      | made h hfirst => exact .made h.insert (mem_trail_append hfirst [name])

/-- Below directories that were made there are no others. -/
theorem made_of_isDirectory (htree : d.IsTree) (hdown : ".." ∉ undotted q.names)
    (hkind : d₁.kind true q = .ok .directory) (hstart : d₁.start q = d.start q)
    (hmade : ∀ left goal, d₁.Arrives maxLinks (d.start q) (undotted q.names).dropLast left goal →
      Made d maxLinks (d.start q) (undotted q.names).dropLast goal d₁) :
    ∃ left goal, d₁.Arrives maxLinks (d.start q) (undotted q.names) left goal ∧
      Made d maxLinks (d.start q) (undotted q.names) goal d₁ := by
  obtain ⟨⟨goal, node⟩, hlookup, hdirectory⟩ := bind_eq_ok_iff.1 hkind
  obtain rfl : node = .directory := by
    cases node with
    | directory => rfl
    | file => cases hdirectory
    | link => cases hdirectory
  have hwalk := (lookup_eq_ok hlookup).2
  rw [hstart] at hwalk
  obtain ⟨left, harrives⟩ := arrives_of_walk hwalk
  have harrives' : d₁.Arrives maxLinks (d.start q) (undotted q.names) left goal := by
    refine harrives.of_undotted ?_
    rw [Path.undotted_steps]
    exact undotted_undotted _
  refine ⟨left, goal, harrives', ?_⟩
  rcases List.eq_nil_or_concat (undotted q.names) with hnil | ⟨above, name, hnames⟩
  · rw [hnil] at harrives' hmade ⊢
    exact hmade left goal harrives'
  · rw [List.concat_eq_append] at hnames
    have hmem : name ∈ undotted q.names := hnames ▸ List.mem_append_right above (List.mem_singleton_self _)
    have hdot : name ≠ "." := of_decide_eq_true (List.mem_filter.1 hmem).2
    have hup : name ≠ ".." := ne_of_mem_of_not_mem hmem hdown
    rw [hnames] at harrives' hmade ⊢
    rw [List.dropLast_concat] at hmade
    obtain ⟨left', goal', habove⟩ := harrives'.of_append
    cases hmade left' goal' habove with
    | there => exact .there
    | @made _ first h hfirst =>
      exfalso
      have hbelow : first <+: goal' ++ [name] := h.isPrefix.trans (List.prefix_append ..)
      have hfree : d₁.node? (goal' ++ [name]) = none := by
        rw [h.frame, htree.node?_below h.wasFree hbelow]
        rintro ⟨-, hgoal⟩
        have hlength := hgoal.length_le
        rw [List.length_append, List.length_singleton] at hlength
        omega
      have hplace := harrives'.walk_eq
      rw [habove.walk_append, walk_name hdot hup, hfree] at hplace
      split at hplace
      · cases hplace
      · cases hplace

end Disk

namespace Access

open LayeredConfig.FileProgram
open LayeredConfig.Disk (Extends Made IsTree undotted maxLinks)

variable {d d' : Disk} {q : Path}

theorem keeps_isDirectory_kind (h : Extends d d') (path : Path) :
    (isDirectory path).Keeps (Extends d)
      (fun answer d₁ ↦ d₁ = d' ∧ (answer = true → d'.kind true path = .ok .directory)) d' := by
  rw [isDirectory]
  apply Keeps.bind
  refine keeps_call h fun answer d'' hattempt ↦ ?_
  obtain rfl := hattempt.kind
  refine ⟨h, ?_⟩
  split
  · exact keeps_pure h ⟨rfl, fun _ ↦ hattempt.kind_eq_ok rfl⟩
  · exact keeps_pure h ⟨rfl, fun hfalse ↦ by cases hfalse⟩

/-- What is to hold behind the making of directories along some names. -/
def MadeAlong (d : Disk) (base : Location) (names : List String) (result : Except FileError Unit)
    (d' : Disk) : Prop :=
  result = .ok () → ∃ left goal, d'.Arrives maxLinks base names left goal ∧
    Made d maxLinks base names goal d'

/-- One directory is made below others. -/
theorem keeps_createDirectories_cons (htree : d.IsTree) (hdown : ".." ∉ undotted q.names) {above : List Path}
    (habove : (createDirectories above).Keeps (Extends d)
      (MadeAlong d (d.start q) (undotted q.names).dropLast) d) :
    (createDirectories (q :: above)).Keeps (Extends d) (MadeAlong d (d.start q) (undotted q.names)) d := by
  have hcheck {d₁ : Disk} (h₁ : Extends d d₁) (cause : FileError)
      (hmade : ∀ left goal, d₁.Arrives maxLinks (d.start q) (undotted q.names).dropLast left goal →
        Made d maxLinks (d.start q) (undotted q.names).dropLast goal d₁) :
      (do return if ← isDirectory q then .ok () else .error cause :
        FileProgram (Except FileError Unit)).Keeps (Extends d)
          (MadeAlong d (d.start q) (undotted q.names)) d₁ := by
    apply Keeps.bind
    refine (keeps_isDirectory_kind h₁ q).mono (fun _ ↦ id) fun answer d₂ h₂ hanswer ↦ ?_
    obtain ⟨rfl, hkind⟩ := hanswer
    refine keeps_pure h₂ fun hok ↦ ?_
    cases answer with
    | false => cases hok
    | true => exact Disk.made_of_isDirectory htree hdown (hkind rfl) (h₂.start_eq q) hmade
  rw [createDirectories]
  split
  · rename_i hempty
    refine keeps_pure (.refl d) fun _ ↦ ?_
    have hnames : undotted q.names = [] := by
      have htext : q = ⟨""⟩ := congrArg Path.mk (String.isEmpty_iff.1 hempty)
      rw [htext]
      rfl
    rw [hnames]
    exact ⟨_, _, .done _ _, .there⟩
  apply Keeps.bind
  refine keeps_call (.refl d) fun answer d₁ hattempt ↦ ?_
  obtain ⟨⟨e, rfl⟩, rfl⟩ | ⟨rfl, hcreate⟩ := hattempt.createDirectory_cases
  · refine ⟨.refl d₁, ?_⟩
    split
    · rename_i hok
      cases hok
    · apply Keeps.bind
      refine habove.mono (fun _ ↦ id) fun result d₂ h₂ hresult ↦ ?_
      cases result with
      | error cause => exact keeps_pure h₂ fun hok ↦ by cases hok
      | ok =>
        obtain ⟨left, goal, harrives, hmade⟩ := hresult rfl
        have hmade' : ∀ left goal, d₂.Arrives maxLinks (d₁.start q) (undotted q.names).dropLast left goal →
            Made d₁ maxLinks (d₁.start q) (undotted q.names).dropLast goal d₂ := by
          intro left' goal' harrives'
          rw [harrives.goal_eq harrives' rfl]
          exact hmade
        dsimp only
        apply Keeps.bind
        refine keeps_call h₂ fun answer d₃ hattempt ↦ ?_
        obtain ⟨⟨e, rfl⟩, rfl⟩ | ⟨rfl, hcreate⟩ := hattempt.createDirectory_cases
        · exact ⟨h₂, hcheck h₂ e hmade'⟩
        · have hall := Disk.made_of_createDirectory hcreate (h₂.start_eq q) hmade'
          have h₃ : Extends d₁ d₃ := by
            obtain ⟨_, _, -, hmade₃⟩ := hall
            exact hmade₃.extends htree
          exact ⟨h₃, keeps_pure h₃ fun _ ↦ hall⟩
    · exact hcheck (.refl d₁) _ fun _ _ _ ↦ .there
  · have hall := Disk.made_of_createDirectory (d := d) hcreate rfl fun _ _ _ ↦ .there
    have h₁ : Extends d d₁ := by
      obtain ⟨_, _, -, hmade⟩ := hall
      exact hmade.extends htree
    exact ⟨h₁, keeps_pure h₁ fun _ ↦ hall⟩

/-- Directories are made along the names of a path that leads down, and nothing else is. -/
theorem keeps_createDirectories_made (htree : d.IsTree) (hdown : ".." ∉ undotted q.names) :
    (createDirectories q.ancestors).Keeps (Extends d) (MadeAlong d (d.start q) (undotted q.names)) d := by
  fun_induction Path.ancestors q with
  | case1 q parent hparent hlt ih =>
    have hnames := Path.undotted_names_parent hparent
    have hstart : d.start ⟨String.ofList parent⟩ = d.start q := by
      rw [Disk.start, Disk.start, Path.isAbsolute_parent hparent]
    rw [hnames, hstart] at ih
    exact keeps_createDirectories_cons htree hdown
      (ih fun hmem ↦ hdown (List.dropLast_subset _ hmem))
  | case2 q hnone =>
    apply keeps_createDirectories_cons htree hdown
    rw [createDirectories, Path.undotted_names, Path.properNames_of_parentChars?_none hnone]
    exact keeps_pure (.refl d) fun _ ↦ ⟨_, _, .done _ _, .there⟩

end Access

end LayeredConfig
