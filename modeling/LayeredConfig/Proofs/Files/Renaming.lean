import LayeredConfig.Proofs.Files.Untouched

/-!
# Files under another name

A file gets another name in its directory, which no entry has. What leads to the file, a link too,
then stands under the new name, the old name is free, and all other entries are what they were.
-/

namespace LayeredConfig

namespace Disk

variable {d d' : Disk} {p : Path} {directory goal : Location} {name other : String}
  {links left : Nat} {steps : List String} {contents : ByteArray} {executable : Bool}

/-! ## Links to files -/

/-- A link that leads to a file is not met again on the way to the file. -/
theorem LeadsToFile.link (hleaf : ∀ links left goal, ¬ d.Arrives links directory [name] left goal)
    (hdot : name ≠ ".") (hup : name ≠ "..") {target : Path}
    (hnode : d.node? (directory ++ [name]) = some (.link target))
    (h : d.walk true links directory [name] = .ok (.found goal (.file contents executable))) :
    ∃ less, less < links ∧
      d.walk true less (if target.isAbsolute then [] else directory) target.steps =
        .ok (.found goal (.file contents executable)) ∧
      directory ++ [name] ∉ d.trail less (if target.isAbsolute then [] else directory) target.steps := by
  induction links using Nat.strongRecOn with
  | ind links ih =>
    have hwalk := h
    rw [walk_name hdot hup, hnode] at hwalk
    split at hwalk
    · cases hwalk
    simp only [Bool.not_true, Bool.and_false, List.append_nil] at hwalk
    cases links with
    | zero => cases hwalk
    | succ links =>
      have hwalk' : d.walk true links (if target.isAbsolute then [] else directory) target.steps =
          .ok (.found goal (.file contents executable)) := hwalk
      by_cases hmem : directory ++ [name] ∈
          d.trail links (if target.isAbsolute then [] else directory) target.steps
      · obtain ⟨l, again, links', rest, heq, -, -, hle, hagain⟩ := walk_of_mem_trail hwalk' hmem
        obtain ⟨rfl, hname⟩ := List.append_inj' heq rfl
        obtain rfl := (List.cons.inj hname).1
        cases rest with
        | nil =>
          obtain ⟨less, hless, hfound⟩ := ih links' (by omega) hagain
          exact ⟨less, by omega, hfound⟩
        | cons next rest =>
          rw [← List.singleton_append] at hagain
          obtain ⟨left, goal', harrives⟩ := arrives_of_walk_append hagain
          exact absurd harrives (hleaf _ _ _)
      · exact ⟨links, Nat.lt_succ_self _, hwalk', hmem⟩

/-! ## The disk behind a renaming -/

/-- What stood at one name of a directory stands at another one, and nothing else has changed. -/
structure Renamed (d d' : Disk) (directory : Location) (name other : String) : Prop where
  workingDirectory : d'.workingDirectory = d.workingDirectory
  target : d'.node? (directory ++ [other]) = d.node? (directory ++ [name])
  source : d'.node? (directory ++ [name]) = none
  wasFree : d.node? (directory ++ [other]) = none
  frame : ∀ l, l ≠ directory ++ [name] → l ≠ directory ++ [other] → d.HasDirectory l.dropLast →
    d'.node? l = d.node? l

theorem not_prefix_concat (hne : name ≠ other) :
    ¬ directory ++ [name] <+: directory ++ [other] := by
  intro hprefix
  have heq := hprefix.eq_of_length (by simp)
  exact hne (List.cons.inj (List.append_cancel_left heq)).1

theorem renamed_move (hne : name ≠ other) (hfree : d.node? (directory ++ [other]) = none)
    (hnot : d.node? (directory ++ [name]) ≠ some .directory) :
    Renamed d (d.move (directory ++ [name]) (directory ++ [other])) directory name other := by
  have hlocation : directory ++ [name] ≠ directory ++ [other] :=
    fun heq ↦ hne (List.cons.inj (List.append_cancel_left heq)).1
  refine ⟨rfl, ?_, ?_, hfree, fun l hsource htarget hparents ↦ ?_⟩
  · exact node?_move_target (List.concat_ne_nil _ _) (List.concat_ne_nil _ _) hlocation
  · exact node?_move_source (List.concat_ne_nil _ _) (not_prefix_concat (Ne.symm hne))
  · apply node?_move_of_not_below
    · exact fun habove ↦ hnot (hparents.node?_of_above habove hsource)
    · intro habove
      rw [hparents.node?_of_above habove htarget] at hfree
      cases hfree

/-! ## Renaming over free names -/

theorem targetPlace_eq_ok {e : EntryPlace} (h : d.targetPlace p = .ok e) : d.entryPlace p = .ok e := by
  unfold targetPlace at h
  split at h
  · cases h
  · exact h

theorem namesEntry_of_entryPlace {e : EntryPlace} (hname : Path.IsName name)
    (h : d.entryPlace (p.join name) = .ok e) :
    ∃ directory, d.NamesEntry p name directory ∧ e = ⟨directory, name, false⟩ := by
  obtain ⟨⟨⟩, hcheck, h⟩ := bind_eq_ok_iff.1 h
  obtain ⟨place, hwalk, h⟩ := bind_eq_ok_iff.1 h
  rw [Path.names_join hname, List.dropLast_concat] at hwalk
  split at h
  · rename_i directory
    rw [Path.names_join hname, List.getLast?_concat, Option.getD_some,
      Path.hasTrailingSlash_join hname] at h
    dsimp only at h
    split at h
    · cases h
    · rename_i hsize
      exact ⟨directory, ⟨hname, hcheck, hsize, arrives_of_walk hwalk⟩, (Except.ok.inj h).symm⟩
  · cases h
  · cases h

/-- Two names that are joined to one path are names in one directory. -/
theorem NamesEntry.directory_eq {directory' : Location} (h : d.NamesEntry p name directory)
    (hother : d.NamesEntry p other directory') : directory' = directory := by
  obtain ⟨left, harrives⟩ := h.arrives
  obtain ⟨left', harrives'⟩ := hother.arrives
  have hwalk := harrives'.walk_eq
  rw [start, Path.isAbsolute_join_eq h.isName hother.isName, ← start, harrives.walk_eq] at hwalk
  cases hwalk
  rfl

theorem NamesEntry.exists_kind {node : FileNode} (h : d.NamesEntry p name directory)
    (hnode : d.node? (directory ++ [name]) = some node) :
    ∃ kind, d.kind false (p.join name) = .ok kind := by
  obtain ⟨left, harrives⟩ := h.arrives
  have hfound : ∃ l node, d.walk false maxLinks (d.start (p.join name)) (p.join name).steps =
      .ok (.found l node) := by
    rw [Path.steps_join h.isName, harrives.walk_append, walk_name h.isName.ne_dot h.isName.ne_dots,
      if_neg h.size, hnode]
    cases node with
    | directory => exact ⟨_, _, walk_nil⟩
    | file contents executable => exact ⟨_, _, rfl⟩
    | link target => exact ⟨_, _, rfl⟩
  obtain ⟨l, node, hwalk⟩ := hfound
  rw [kind, lookup_of_walk h.check hwalk]
  exact ⟨_, rfl⟩

/-- A renaming that succeeds does nothing or moves the entry of one path in the place of another. -/
theorem rename_cases {source target : Path} (h : d.rename source target = .ok d') :
    ∃ s t, d.entryPlace source = .ok s ∧ d.entryPlace target = .ok t ∧
      (s.location = t.location ∧ d' = d ∨ d' = d.move s.location t.location) := by
  obtain ⟨s, hs, h⟩ := bind_eq_ok_iff.1 h
  obtain ⟨t, ht, h⟩ := bind_eq_ok_iff.1 h
  refine ⟨s, t, hs, targetPlace_eq_ok ht, ?_⟩
  split at h
  · cases h
  split at h
  · cases h
  split at h
  · cases h
  split at h
  · cases h
  split at h
  · cases h
  split at h
  · rename_i hsame
    exact .inl ⟨hsame, (Except.ok.inj h).symm⟩
  split at h
  · exact .inr (Except.ok.inj h).symm
  split at h
  · cases h
  split at h
  · cases h
  split at h
  · cases h
  · exact .inr (Except.ok.inj h).symm

/-- A renaming to a name that nothing has, when it succeeds, gives the entry that name. -/
theorem renamed_of_rename (hentry : d.NamesEntry p name directory) (hother : Path.IsName other)
    (hne : name ≠ other) (hnot : d.node? (directory ++ [name]) ≠ some .directory)
    (hfree : ∀ kind, d.kind false (p.join other) ≠ .ok kind)
    (h : d.rename (p.join name) (p.join other) = .ok d') :
    Renamed d d' directory name other ∧ d.NamesEntry p other directory := by
  obtain ⟨s, t, hs, ht, hcases⟩ := rename_cases h
  obtain rfl := Except.ok.inj (hentry.entryPlace.symm.trans hs)
  obtain ⟨directory', hotherEntry, rfl⟩ := namesEntry_of_entryPlace hother ht
  obtain rfl := hentry.directory_eq hotherEntry
  have hnone : d.node? (directory' ++ [other]) = none := by
    rw [Option.eq_none_iff_forall_ne_some]
    intro node hnode
    obtain ⟨kind, hkind⟩ := hotherEntry.exists_kind hnode
    exact hfree kind hkind
  refine ⟨?_, hotherEntry⟩
  rcases hcases with ⟨hsame, -⟩ | rfl
  · exact absurd (List.cons.inj (List.append_cancel_left hsame)).1 hne
  · exact renamed_move hne hnone hnot

/-! ## What is found under the other name -/

namespace Renamed

theorem start_eq (h : Renamed d d' directory name other) (path : Path) : d'.start path = d.start path := by
  rw [start, start, h.workingDirectory]

/-- What was looked at, without the entry itself, is what it was. -/
theorem node?_of_mem_trail (h : Renamed d d' directory name other) {base : Location}
    (hbase : d.HasDirectory base) {node : FileNode}
    (hwalk : d.walk true links base steps = .ok (.found goal node))
    (hentry : directory ++ [name] ∉ d.trail links base steps) {l : Location}
    (hl : l ∈ d.trail links base steps) : d'.node? l = d.node? l := by
  apply h.frame l (ne_of_mem_of_not_mem hl hentry) ?_ (hasDirectory_of_mem_trail hbase hl)
  rintro rfl
  exact Disk.node?_of_mem_trail hwalk hl h.wasFree

/-- The way to the directories that were there is what it was. -/
theorem arrives (h : Renamed d d' directory name other) (hreplaceable : d.Replaceable directory name)
    {base : Location} (hbase : d.HasDirectory base) (harrives : d.Arrives links base steps left goal) :
    d'.Arrives links base steps left goal :=
  harrives.congr fun _ hl ↦
    h.node?_of_mem_trail hbase harrives.walk_eq (harrives.not_mem_trail hreplaceable) hl

theorem hasWorkingDirectory (h : Renamed d d' directory name other)
    (hnot : d.node? (directory ++ [name]) ≠ some .directory) (hworking : d.HasWorkingDirectory) :
    d'.HasWorkingDirectory := by
  intro l hl
  rw [h.workingDirectory] at hl
  have hnode := hworking l hl
  rw [h.frame l ?_ ?_ fun above habove ↦ hworking above ?_, hnode]
  · rintro rfl
    exact hnot hnode
  · rintro rfl
    rw [h.wasFree] at hnode
    cases hnode
  · exact (habove.trans (List.dropLast_prefix l)).trans hl

/-- An entry of the directory, under a name that is there or not, is an entry of it still. -/
theorem namesEntry (h : Renamed d d' directory name other) (hworking : d.HasWorkingDirectory)
    (hreplaceable : d.Replaceable directory name) {last : String}
    (hentry : d.NamesEntry p last directory) : d'.NamesEntry p last directory := by
  obtain ⟨left, harrives⟩ := hentry.arrives
  have harrives' := h.arrives hreplaceable (hworking.start _) harrives
  rw [← h.start_eq] at harrives'
  exact ⟨hentry.isName, hentry.check, hentry.size, left, harrives'⟩

/-- The other name leads to the file that the name led to. -/
theorem walk_other (h : Renamed d d' directory name other) (hdirectory : d.HasDirectory directory)
    (hname : Path.IsName name) (hother : Path.IsName other)
    (hsize : ¬ other.utf8ByteSize > maxNameBytes)
    (hwalk : d.walk true links directory [name] = .ok (.found goal (.file contents executable))) :
    ∃ goal, d'.walk true links directory [other] = .ok (.found goal (.file contents executable)) := by
  have hleads : d.LeadsToFile directory name := ⟨links, goal, contents, executable, hwalk⟩
  rw [walk_name hother.ne_dot hother.ne_dots, if_neg hsize, h.target]
  cases hnode : d.node? (directory ++ [name]) with
  | none => exact absurd hnode (hleads.node? hname).1
  | some node =>
    cases node with
    | directory => exact absurd hnode (hleads.node? hname).2
    | file =>
      have hsize' := size_le_of_walk hname hwalk
      rw [walk_name hname.ne_dot hname.ne_dots, if_neg hsize', hnode] at hwalk
      cases hwalk
      exact ⟨_, rfl⟩
    | link target =>
      obtain ⟨less, hless, htarget, hentry⟩ := LeadsToFile.link
        (hleads.replaceable hname).isLeaf hname.ne_dot hname.ne_dots hnode hwalk
      have hbase : d.HasDirectory (if target.isAbsolute then [] else directory) := by
        split
        · exact .root
        · exact hdirectory
      have htarget' : d'.walk true less (if target.isAbsolute then [] else directory) target.steps =
          .ok (.found goal (.file contents executable)) := by
        rw [walk_congr fun _ hl ↦ h.node?_of_mem_trail hbase htarget hentry hl, htarget]
      -- The walk has one link less for the entry itself, and at least as many as it needs behind it.
      obtain ⟨more, rfl⟩ : ∃ more, links = less + more + 1 := ⟨links - less - 1, by omega⟩
      refine ⟨goal, ?_⟩
      dsimp only
      rw [List.append_nil]
      exact walk_more htarget' nofun more

/-- The renamed file is read under the other name. -/
theorem read_eq (h : Renamed d d' directory name other) (hworking : d.HasWorkingDirectory)
    (hentry : d.NamesEntry p name directory) (hother : d.NamesEntry p other directory)
    (hread : d.read (p.join name) = .ok contents) : d'.read (p.join other) = .ok contents := by
  obtain ⟨goal, executable, hlookup⟩ := read_eq_ok hread
  obtain ⟨-, hwalk⟩ := lookup_eq_ok hlookup
  obtain ⟨left, harrives⟩ := hentry.arrives
  rw [Path.steps_join hentry.isName, harrives.walk_append] at hwalk
  have hleads : d.LeadsToFile directory name := ⟨left, goal, contents, executable, hwalk⟩
  have harrives' : d'.Arrives maxLinks (d'.start (p.join other)) p.names left directory := by
    rw [h.start_eq, start, Path.isAbsolute_join_eq hentry.isName hother.isName, ← start]
    exact h.arrives (hleads.replaceable hentry.isName) (hworking.start _) harrives
  obtain ⟨goal', hfound⟩ := h.walk_other (harrives.hasDirectory (hworking.start _)) hentry.isName
    hother.isName hother.size hwalk
  apply read_of_walk hother.check
  rw [Path.steps_join hother.isName, harrives'.walk_append]
  exact hfound

end Renamed

end Disk

end LayeredConfig
