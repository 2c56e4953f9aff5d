import LayeredConfig.Proofs.Files.Completing

/-!
# What stands above a path

Where a path leads to anything, every path above it leads to a directory. So at most one of a path
and those above it leads to something else than a directory, and that is the one which the check of
directories names.
-/

namespace LayeredConfig

namespace Path

variable {p : Path} {chars parent : List Char}

/-- A parent is the start of a text. -/
theorem parentChars?_prefix (h : parentChars? chars = some parent) : parent <+: chars := by
  rcases hlead : splitLead chars with ⟨lead, names⟩
  rw [parentChars?, hlead] at h
  dsimp only at h
  split at h
  · split at h
    · obtain rfl := Option.some.inj h
      exact List.nil_prefix
    · cases h
  · obtain rfl := Option.some.inj h
    rw [(splitLead_cases hlead).1, List.prefix_append_right_inj, ← List.reverse_suffix,
      List.reverse_reverse]
    exact (dropEmptyNames_suffix _).trans ((List.dropWhile_suffix _).trans (dropEmptyNames_suffix _))

theorem ancestors_of_parentChars? (h : parentChars? p.chars = some parent) :
    p.ancestors = p :: (Path.mk (String.ofList parent)).ancestors := by
  rw [ancestors]
  split
  · rename_i other hother
    obtain rfl := Option.some.inj (h.symm.trans hother)
    rfl
  · rename_i hnone
    rw [h] at hnone
    cases hnone

theorem ancestors_empty : (Path.mk "").ancestors = [⟨""⟩] := by
  rw [ancestors]
  rfl

end Path

namespace Disk

variable {d : Disk} {p q : Path} {parent : List Char} {kind : FileKind}

theorem kind_eq_ok (h : d.kind true p = .ok kind) :
    ∃ l node, d.lookup true p = .ok (l, node) ∧ node.kind = kind := by
  obtain ⟨⟨l, node⟩, hlookup, hkind⟩ := bind_eq_ok_iff.1 h
  exact ⟨l, node, hlookup, Except.ok.inj hkind⟩

theorem kind_empty : d.kind true ⟨""⟩ = .error .notFound := rfl

/-- The names of a path are those of its parent and one more, or none. -/
theorem steps_of_parent (h : Path.parentChars? p.chars = some parent) :
    undotted (Path.mk (String.ofList parent)).steps = [] ∨
      ∃ before name rest, p.steps = before ++ name :: rest ∧
        undotted before = undotted (Path.mk (String.ofList parent)).steps := by
  have hparent := Path.undotted_names_parent h
  rw [← Path.undotted_steps, ← Path.undotted_steps] at hparent
  rcases List.eq_nil_or_concat (undotted p.steps) with hnil | ⟨above, name, hnames⟩
  · rw [hnil] at hparent
    exact .inl hparent
  · rw [List.concat_eq_append] at hnames
    rw [hnames, List.dropLast_concat] at hparent
    obtain ⟨before, rest, hsteps, hbefore, hrest⟩ := List.filter_eq_append_iff.1 hnames
    obtain ⟨dots, more, rfl, hdots, -, -⟩ := List.filter_eq_cons_iff.1 hrest
    refine .inr ⟨before ++ dots, name, more, by rw [hsteps, List.append_assoc], ?_⟩
    rw [undotted_append, hparent]
    have hnone : undotted dots = [] := List.filter_eq_nil_iff.2 hdots
    rw [hnone, List.append_nil]
    exact hbefore

/-- Whatever there is stands in a directory. -/
theorem kind_parent (hparent : Path.parentChars? p.chars = some parent)
    (h : d.kind true p = .ok kind) :
    parent = [] ∨ d.kind true ⟨String.ofList parent⟩ = .ok .directory := by
  by_cases hempty : parent = []
  · exact .inl hempty
  obtain ⟨l, node, hlookup, -⟩ := kind_eq_ok h
  obtain ⟨hcheck, hwalk⟩ := lookup_eq_ok hlookup
  have hchars : (Path.mk (String.ofList parent)).chars = parent := String.toList_ofList
  have hcheck' : checkPath ⟨String.ofList parent⟩ = .ok () := by
    apply Path.checkPath_of_prefix hcheck
    · rw [hchars]
      exact Path.parentChars?_prefix hparent
    · rw [Bool.eq_false_iff, ne_eq, Path.isEmpty, String.isEmpty_iff, ← String.toList_eq_nil_iff,
        String.toList_ofList]
      exact hempty
  have hstart : d.start ⟨String.ofList parent⟩ = d.start p := by
    rw [start, start, Path.isAbsolute_parent hparent]
  have harrives : ∃ left goal, d.Arrives maxLinks (d.start ⟨String.ofList parent⟩)
      (Path.mk (String.ofList parent)).steps left goal := by
    rw [hstart]
    rcases steps_of_parent hparent with hnone | ⟨before, name, rest, hsteps, hbefore⟩
    · exact ⟨_, _, (Arrives.done maxLinks (d.start p)).of_undotted hnone⟩
    · rw [hsteps] at hwalk
      obtain ⟨left, goal, harrives⟩ := arrives_of_walk_append hwalk
      exact ⟨left, goal, harrives.of_undotted hbefore.symm⟩
  obtain ⟨left, goal, harrives⟩ := harrives
  right
  rw [Disk.kind, lookup_of_walk hcheck' harrives.walk_eq]
  rfl

/-- What there is above a path that leads to something is directories. -/
theorem kind_of_mem_ancestors (h : d.kind true p = .ok kind) (hq : q ∈ p.ancestors) :
    q = p ∨ ∀ other, d.kind true q = .ok other → other = .directory := by
  fun_induction Path.ancestors p generalizing kind with
  | case1 p parent hparent hlt ih =>
    rcases List.mem_cons.1 hq with rfl | hq
    · exact .inl rfl
    right
    rcases kind_parent hparent h with rfl | habove
    · rw [String.ofList_nil, Path.ancestors_empty, List.mem_singleton] at hq
      subst hq
      intro other hother
      rw [kind_empty] at hother
      cases hother
    · rcases ih habove hq with rfl | hother
      · intro other hother
        exact Except.ok.inj (hother.symm.trans habove)
      · exact hother
  | case2 p hnone => exact .inl (List.mem_singleton.1 hq)

/-- Where the directory of a path should be or above it, something is no directory. -/
def Obstructs (d : Disk) (path q : Path) : Prop :=
  q ∈ path.directory.ancestors ∧ ∃ kind, d.kind true q = .ok kind ∧ kind ≠ .directory

end Disk

namespace Access

open LayeredConfig.FileProgram

variable {d d' : Disk} {p path q : Path} {kind : FileKind}

theorem checkDirectories_cons_completes {rest : List Path} {result : Except FileFailure Unit}
    (h : (checkDirectories (p :: rest)).Completes FileOp.IsLook d result d') :
    (d.kind true p = .ok .directory ∧ result = .ok () ∨
      ∃ kind, d.kind true p = .ok kind ∧ kind ≠ .directory ∧ result = .error (.notDirectory p)) ∧
        d' = d ∨
    (∃ e, d.kind true p = .error e) ∧ (checkDirectories rest).Completes FileOp.IsLook d result d' := by
  rw [checkDirectories] at h
  obtain ⟨answer, d₁, hcall, hrest⟩ := completes_bind.1 h
  have hlook : (d.kind true p, d) = (answer, d₁) := (completes_call.1 hcall).2 trivial
  obtain ⟨rfl, rfl⟩ := Prod.mk.inj hlook
  split at hrest
  · rename_i hkind
    obtain ⟨rfl, rfl⟩ := completes_pure.1 hrest
    exact .inl ⟨.inl ⟨hkind, rfl⟩, rfl⟩
  · rename_i found hne hkind
    obtain ⟨rfl, rfl⟩ := completes_pure.1 hrest
    refine .inl ⟨.inr ⟨found, hkind, ?_, rfl⟩, rfl⟩
    rintro rfl
    exact hne rfl
  · rename_i e hkind
    exact .inr ⟨⟨e, hkind⟩, hrest⟩

/-- What is in the way is found and named. -/
theorem checkDirectories_completes_of_mem {result : Except FileFailure Unit}
    (hq : q ∈ p.ancestors) (hkind : d.kind true q = .ok kind) (hne : kind ≠ .directory)
    (h : (checkDirectories p.ancestors).Completes FileOp.IsLook d result d') :
    result = .error (.notDirectory q) ∧ d' = d := by
  have hwhole {p : Path} {found : FileKind} (hfound : d.kind true p = .ok found)
      (hq : q ∈ p.ancestors) : q = p := by
    rcases Disk.kind_of_mem_ancestors hfound hq with heq | hdirectory
    · exact heq
    · exact absurd (hdirectory kind hkind) hne
  fun_induction Path.ancestors p with
  | case1 p parent hparent hlt ih =>
    have hmem : q ∈ p.ancestors := Path.ancestors_of_parentChars? hparent ▸ hq
    obtain ⟨⟨hp, -⟩ | ⟨found, hp, -, rfl⟩, rfl⟩ | ⟨⟨e, hp⟩, hrest⟩ := checkDirectories_cons_completes h
    · obtain rfl := hwhole hp hmem
      exact absurd (Except.ok.inj (hkind.symm.trans hp)) hne
    · obtain rfl := hwhole hp hmem
      exact ⟨rfl, rfl⟩
    · rcases List.mem_cons.1 hq with rfl | hq
      · rw [hp] at hkind
        cases hkind
      · exact ih hq hrest
  | case2 p hnone =>
    obtain rfl := List.mem_singleton.1 hq
    obtain ⟨⟨hp, -⟩ | ⟨found, hp, -, rfl⟩, rfl⟩ | ⟨⟨e, hp⟩, -⟩ := checkDirectories_cons_completes h
    · exact absurd (Except.ok.inj (hkind.symm.trans hp)) hne
    · exact ⟨rfl, rfl⟩
    · rw [hp] at hkind
      cases hkind

end Access

end LayeredConfig
