import LayeredConfig.Proofs.Files.Creating

/-!
# Writing a file with its directories

A file is written where one was or none was, and its directories are made when they are not there.
Behind it the path holds what was written, and another path is read as before unless it shares more
with the written one than directories.
-/

namespace LayeredConfig

/-- A name for a file that no temporary file takes. -/
structure Path.IsFileName (name : String) : Prop extends Path.IsName name where
  noDotFirst : name.toList.head? ≠ some '.'
  size : ¬ name.utf8ByteSize > Disk.maxNameBytes

namespace Disk

variable {d d' d₁ : Disk} {p path other : Path} {l base directory goal : Location} {name : String}
  {links left : Nat} {steps : List String} {bytes : ByteArray} {contents : String}

/-! ## Missing files -/

/-- Nothing is found at the end of a walk. -/
def Misses (d : Disk) (links : Nat) (base : Location) (steps : List String) : Prop :=
  d.walk true links base steps = .error .notFound ∨
    ∃ directory name, d.walk true links base steps = .ok (.free directory name)

theorem Misses.not_found (h : d.Misses links base steps) {links' : Nat} {node : FileNode} :
    d.walk true links' base steps ≠ .ok (.found l node) := by
  intro hfound
  rcases h with hmissing | ⟨directory, name, hfree⟩
  · have hmore := walk_more hfound nofun links
    rw [Nat.add_comm, walk_more hmissing nofun] at hmore
    cases hmore
  · cases walk_unique hfound hfree

theorem misses_of_read (hcheck : checkPath path = .ok ()) (h : d.read path = .error .notFound) :
    d.Misses maxLinks (d.start path) path.steps := by
  rw [Misses]
  cases hwalk : d.walk true maxLinks (d.start path) path.steps with
  | error e =>
    rw [read, lookup, resolve_of_walk hcheck hwalk] at h
    exact .inl (congrArg _ (Except.error.inj h))
  | ok place =>
    cases place with
    | free directory name => exact .inr ⟨directory, name, rfl⟩
    | found l node =>
      rw [read, lookup, resolve_of_walk hcheck hwalk] at h
      cases node <;> cases h

/-- A path at which a file can be written: it leads to a file, or to nothing. -/
def IsVacantOrFile (d : Disk) (path : Path) : Prop :=
  d.read path = .error .notFound ∨ ∃ bytes, d.read path = .ok bytes

theorem IsVacantOrFile.checkPath (h : d.IsVacantOrFile (p.join name)) (hname : Path.IsName name) :
    Disk.checkPath (p.join name) = .ok () := by
  have hread {e : FileError} (he : Disk.checkPath (p.join name) = .error e) :
      d.read (p.join name) = .error e := by
    rw [read, lookup, resolve, he]
    rfl
  have hempty : (p.join name).isEmpty = false := by
    obtain ⟨base, -, hchars, -⟩ := Path.chars_join hname p
    rw [Path.isEmpty, Bool.eq_false_iff, ne_eq, String.isEmpty_iff, ← String.toList_eq_nil_iff]
    change ¬ (p.join name).chars = []
    rw [hchars, List.append_eq_nil_iff]
    exact fun hnil ↦ hname.nonempty hnil.2
  cases hcheck : Disk.checkPath (p.join name) with
  | ok => rfl
  | error e =>
    rcases h with h | ⟨bytes, h⟩
    · rw [hread hcheck] at h
      obtain rfl := Except.error.inj h
      unfold Disk.checkPath at hcheck
      rw [hempty] at hcheck
      split at hcheck
      · cases hcheck
      split at hcheck
      · rename_i hfalse
        cases hfalse
      split at hcheck
      · cases hcheck
      · cases hcheck
    · rw [hread hcheck] at h
      cases h

theorem freshName_ne (hdot : name.toList.head? ≠ some '.') (d : Disk) (directory : Location) :
    d.freshName directory ≠ name := by
  rintro rfl
  obtain ⟨number, hnumber⟩ := freshName_eq d directory
  rw [hnumber, toList_temporaryName] at hdot
  exact hdot rfl

/-- An entry that leads to nothing can be replaced, as one that leads to a file can. -/
theorem IsVacantOrFile.replaceable (h : d.IsVacantOrFile (p.join name)) (hname : Path.IsFileName name)
    (hentry : d.NamesEntry p name directory) : d.Replaceable directory name := by
  obtain ⟨left, harrives⟩ := hentry.arrives
  rcases h with h | ⟨bytes, h⟩
  · have hmisses := misses_of_read hentry.check h
    rw [Path.steps_join hname.toIsName, Misses, harrives.walk_append] at hmisses
    have hmisses' : d.Misses left directory [name] := hmisses
    refine ⟨fun links left' goal h' ↦ hmisses'.not_found h'.walk_eq, fun hnode ↦ ?_,
      freshName_ne hname.noDotFirst d directory⟩
    have hfound : d.walk true left directory [name] = .ok (.found (directory ++ [name]) .directory) := by
      rw [walk_name hname.ne_dot hname.ne_dots, if_neg hname.size, hnode]
      exact walk_nil
    exact hmisses'.not_found hfound
  · obtain ⟨l, executable, hlookup⟩ := read_eq_ok h
    obtain ⟨directory', hentry', hleads⟩ := namesEntry_of_lookup hname.toIsName hlookup
    obtain rfl := hentry.directory_eq hentry'
    exact hleads.replaceable hname.toIsName

/-! ## Paths apart -/

/-- The entry of a path, if its directory is there, is not looked at for another path. -/
def Apart (d : Disk) (path other : Path) : Prop :=
  ∀ entry, d.entryPlace path = .ok entry → entry.location ∉ d.touched other

/-- Two paths are apart, and whatever is looked at for both is there. -/
structure Separate (d : Disk) (path other : Path) : Prop where
  apart : d.Apart path other
  meets : ∀ l ∈ d.touched path, l ∈ d.touched other → d.node? l ≠ none

/-- A directory that is there, or that can be made since its names lead down only. -/
def CanHold (d : Disk) (directory : Path) : Prop :=
  d.kind true directory = .ok .directory ∨ ".." ∉ directory.names

theorem start_join (hname : Path.IsName name) (h : p.isEmpty = false) (d : Disk) :
    d.start (p.join name) = d.start p := by
  rw [start, start, Path.isAbsolute_join hname h]

/-- The names of a directory that is there lead to it. -/
theorem exists_arrives_of_kind (hname : Path.IsName name) (h : d.kind true p = .ok .directory) :
    ∃ left directory, d.Arrives maxLinks (d.start (p.join name)) p.names left directory := by
  obtain ⟨⟨directory, node⟩, hlookup, hkind⟩ := bind_eq_ok_iff.1 h
  obtain ⟨hcheck, hwalk⟩ := lookup_eq_ok hlookup
  have hempty : p.isEmpty = false := by
    rw [Bool.eq_false_iff]
    intro hempty
    have htext : p = ⟨""⟩ := congrArg Path.mk (String.isEmpty_iff.1 hempty)
    rw [htext] at hcheck
    cases hcheck
  cases node with
  | directory =>
    obtain ⟨left, harrives⟩ := arrives_of_walk hwalk
    rw [start_join hname hempty]
    exact ⟨left, directory, harrives.of_undotted (Path.undotted_steps p).symm⟩
  | file => cases hkind
  | link => cases hkind

/-- Outside the directories that were made, everything is as it was. -/
theorem MadeFrom.node?_eq {first : Location} (h : MadeFrom d d₁ first goal)
    (hparents : d.HasDirectory l.dropLast) (hne : l ≠ first) : d₁.node? l = d.node? l := by
  apply h.frame
  rintro ⟨hfirst, -⟩
  have hfree := h.wasFree
  rw [hparents.node?_of_above hfirst hne] at hfree
  cases hfree

theorem mem_touched (h : l ∈ d.trail maxLinks (d.start path) path.steps) : l ∈ d.touched path :=
  List.mem_flatMap.2 ⟨path, List.mem_cons_self, h⟩

/-- The first directory that was made is looked at for the file. -/
theorem mem_touched_of_mem_trail (hname : Path.IsName name)
    (h : l ∈ d.trail maxLinks (d.start (p.join name)) (undotted p.names)) :
    l ∈ d.touched (p.join name) := by
  rw [trail_of_undotted (undotted_undotted _)] at h
  apply Disk.mem_touched
  rw [Path.steps_join hname]
  exact mem_trail_append h [name]

/-! ## Directories for an entry -/

/-- The directories of an entry are there, and there is nothing but them that was not there. -/
structure Prepared (d d₁ : Disk) (p : Path) (name : String) (directory : Location) : Prop where
  namesEntry : d₁.NamesEntry p name directory
  made : Made d maxLinks (d.start (p.join name)) (undotted p.names) directory d₁

theorem Prepared.extends (h : Prepared d d₁ p name directory) (htree : d.IsTree) : Extends d d₁ :=
  h.made.extends htree

namespace Prepared

/-- Below new directories nothing was there. -/
theorem node?_of_ne (h : Prepared d d₁ p name directory) (htree : d.IsTree) (hne : d₁ ≠ d) :
    d₁.node? (directory ++ [name]) = none ∧ d.node? (directory ++ [name]) = none := by
  cases h.made with
  | there => exact absurd rfl hne
  | @made _ first hmade _ =>
    have hfree := htree.node?_below hmade.wasFree (hmade.isPrefix.trans (List.prefix_append _ [name]))
    rw [hmade.frame, hfree]
    · exact ⟨rfl, rfl⟩
    · rintro ⟨-, hgoal⟩
      have hlength := hgoal.length_le
      rw [List.length_append, List.length_singleton] at hlength
      omega

theorem replaceable (h : Prepared d d₁ p name directory) (htree : d.IsTree)
    (hname : Path.IsFileName name) (hvacant : d.IsVacantOrFile (p.join name)) :
    d₁.Replaceable directory name := by
  by_cases heq : d₁ = d
  · subst heq
    exact hvacant.replaceable hname h.namesEntry
  · exact replaceable_of_free (h.node?_of_ne htree heq).1 hname.noDotFirst

/-- What is looked at for a separate path is no directory that was made. -/
theorem node?_eq (h : Prepared d d₁ p name directory) (hworking : d.HasWorkingDirectory)
    (hseparate : d.Separate (p.join name) other) (hl : l ∈ d.touched other) :
    d₁.node? l = d.node? l := by
  cases h.made with
  | there => rfl
  | @made _ first hmade hfirst =>
    apply hmade.node?_eq (hasDirectory_of_mem_touched hworking hl)
    rintro rfl
    exact hseparate.meets l (mem_touched_of_mem_trail h.namesEntry.isName hfirst) hl hmade.wasFree

/-- And it is not the entry of the file. -/
theorem ne_entry (h : Prepared d d₁ p name directory) (hworking : d.HasWorkingDirectory)
    (hapart : d.Apart (p.join name) other) (hl : l ∈ d.touched other) : l ≠ directory ++ [name] := by
  rintro rfl
  cases h.made with
  | there => exact hapart _ h.namesEntry.entryPlace hl
  | @made _ first hmade hfirst =>
    have hparents := hasDirectory_of_mem_touched hworking hl
    rw [List.dropLast_concat] at hparents
    have hfree := hmade.wasFree
    rw [hparents first hmade.isPrefix] at hfree
    cases hfree

end Prepared

/-! ## What is spared -/

/-- What is there stays there, but for the entry of a path. -/
structure Spares (d d' : Disk) (path : Path) : Prop where
  workingDirectory : d'.workingDirectory = d.workingDirectory
  keeps : ∀ l node, d.node? l = some node →
    (∀ entry, d.entryPlace path = .ok entry → l ≠ entry.location) → d'.node? l = some node

theorem Extends.spares (h : Extends d d') (htree : d.IsTree) (path : Path) : Spares d d' path :=
  ⟨h.workingDirectory, fun l node hnode _ ↦ h.keeps l node hnode (htree l node hnode)⟩

/-- A file that is apart is read as before. -/
theorem Spares.read_eq (h : Spares d d' path) (hapart : d.Apart path other)
    (hread : d.read other = .ok bytes) : d'.read other = .ok bytes := by
  obtain ⟨goal, executable, hlookup⟩ := read_eq_ok hread
  obtain ⟨hcheck, hwalk⟩ := lookup_eq_ok hlookup
  apply read_of_walk hcheck
  rw [start, h.workingDirectory, ← start, walk_congr fun l hl ↦ ?_]
  · exact hwalk
  · obtain ⟨node, hnode⟩ := Option.ne_none_iff_exists'.1 (node?_of_mem_trail hwalk hl)
    rw [hnode, h.keeps l node hnode fun entry hentry ↦ ?_]
    exact ne_of_mem_of_not_mem (mem_touched hl) (hapart entry hentry)

variable {entry : Location}

theorem node?_erase_self (h : entry ≠ []) (d : Disk) : (d.erase entry).node? entry = none := by
  rw [node?_of_ne_nil h]
  exact lookup_filter_self

/-- A directory is there still when an entry is taken away that is none. -/
theorem HasDirectory.erase (h : d.HasDirectory directory) (hnot : d.node? entry ≠ some .directory) :
    (d.erase entry).HasDirectory directory := by
  intro l hl
  have hnode := h l hl
  rw [node?_erase_of_ne, hnode]
  rintro rfl
  exact hnot hnode

theorem extends_erase (hne : entry ≠ []) : Extends (d.erase entry) d := by
  refine ⟨rfl, fun l node hnode _ ↦ ?_⟩
  rw [← node?_erase_of_ne, hnode]
  rintro rfl
  rw [node?_erase_self hne] at hnode
  cases hnode

/-- What keeps everything but the entry of a path spares all else. -/
theorem spares_of_extends_erase (hentry : d.NamesEntry p name directory)
    (h : Extends (d.erase (directory ++ [name])) d') (htree : d.IsTree)
    (hnot : d.node? (directory ++ [name]) ≠ some .directory) : Spares d d' (p.join name) := by
  refine ⟨h.workingDirectory, fun l node hnode hspared ↦ ?_⟩
  have hne : l ≠ directory ++ [name] := hspared _ hentry.entryPlace
  apply h.keeps l node ?_ ((htree l node hnode).erase hnot)
  rw [node?_erase_of_ne hne, hnode]

namespace NamesEntry

/-- An entry of a directory is one still when it is taken away. -/
theorem erase (h : d.NamesEntry p name directory) (hreplaceable : d.Replaceable directory name) :
    (d.erase (directory ++ [name])).NamesEntry p name directory := by
  obtain ⟨left, harrives⟩ := h.arrives
  refine ⟨h.isName, h.check, h.size, left, harrives.congr fun l hl ↦ node?_erase_of_ne ?_⟩
  exact ne_of_mem_of_not_mem hl (harrives.not_mem_trail hreplaceable)

theorem unused_erase (directory : Location) (name : String) :
    (d.erase (directory ++ [name])).Unused (directory ++ [name]) :=
  fun _ ↦ node?_erase_self (List.concat_ne_nil _ _) d

end NamesEntry

theorem Extends.hasDirectory (h : Extends d d') (hdirectory : d.HasDirectory directory) :
    d'.HasDirectory directory := by
  intro above habove
  apply h.keeps above .directory (hdirectory above habove)
  exact fun l hl ↦ hdirectory l ((hl.trans (List.dropLast_prefix above)).trans habove)

theorem Extends.trans (h : Extends d d₁) (h' : Extends d₁ d') : Extends d d' :=
  ⟨h'.workingDirectory.trans h.workingDirectory, fun l node hnode hparents ↦
    h'.keeps l node (h.keeps l node hnode hparents) (h.hasDirectory hparents)⟩

theorem Extends.hasWorkingDirectory (h : Extends d d') (hworking : d.HasWorkingDirectory) :
    d'.HasWorkingDirectory := by
  rw [HasWorkingDirectory, h.workingDirectory]
  exact h.hasDirectory hworking

end Disk

namespace Access

open LayeredConfig.FileProgram
open LayeredConfig.Disk (maxLinks undotted Apart CanHold IsTree IsVacantOrFile HasWorkingDirectory
  NamesEntry Prepared Extends Made Replaced)

variable {d d' d₁ : Disk} {p path : Path} {directory : Location} {name contents : String}

/-! ## Directories for a file -/

/-- Along names that lead down, the directories of a file can be made with any faults. -/
theorem keeps_prepare (htree : d.IsTree) (hname : Path.IsName name)
    (hcheck : Disk.checkPath (p.join name) = .ok ()) (hsize : ¬ name.utf8ByteSize > Disk.maxNameBytes)
    (hdown : ".." ∉ p.names) :
    (createDirectories (p.join name).directory.ancestors).Keeps (Extends d)
      (fun result d₁ ↦ result = .ok () → ∃ directory, Prepared d d₁ p name directory) d := by
  obtain ⟨hsteps, habsolute⟩ := Path.directory_join hname p
  rw [Path.undotted_steps] at hsteps
  have hstart : d.start (p.join name).directory = d.start (p.join name) := by
    rw [Disk.start, Disk.start, habsolute]
  have hmade := keeps_createDirectories_made (q := (p.join name).directory) htree
    (by rw [hsteps]; exact fun hmem ↦ hdown (List.mem_filter.1 hmem).1)
  rw [hsteps, hstart] at hmade
  refine hmade.mono (fun _ ↦ id) fun result d₁ h₁ hresult hok ↦ ?_
  obtain ⟨left, directory, harrives, hmade⟩ := hresult hok
  rw [← h₁.start_eq] at harrives
  exact ⟨directory, ⟨hname, hcheck, hsize, left,
    harrives.of_undotted (Disk.undotted_undotted _).symm⟩, hmade⟩

/-- Directories that are there, or that were made, are the directories of the file. -/
theorem prepared_of_run (htree : d.IsTree) (hname : Path.IsFileName name)
    (hvacant : d.IsVacantOrFile (p.join name)) (hroom : d.CanHold p)
    (hrun : (createDirectories (p.join name).directory.ancestors).run d = (.ok (), d₁)) :
    ∃ directory, Prepared d d₁ p name directory := by
  have hcheck := hvacant.checkPath hname.toIsName
  rcases hroom with hthere | hdown
  · obtain ⟨left, directory, harrives⟩ := Disk.exists_arrives_of_kind hname.toIsName hthere
    have hentry : d.NamesEntry p name directory := ⟨hname.toIsName, hcheck, hname.size, left, harrives⟩
    obtain ⟨left', harrives'⟩ := arrives_directory hentry
    have hnothing := run_createDirectories (Path.checkPath_directory hname.toIsName hcheck)
      (Path.isEmpty_directory _) harrives'
    rw [hnothing] at hrun
    cases hrun
    exact ⟨directory, hentry, .there⟩
  · have hreached := (keeps_prepare htree hname.toIsName hcheck hname.size hdown).reaches
      (reaches_run _ d)
    rw [hrun] at hreached
    exact hreached.2 rfl

/-! ## Behind a write -/

/-- The path of a file holds what was written, and what is separate from it is read as before. -/
structure Written (d d' : Disk) (path : Path) (contents : String) : Prop where
  read : ((readText path).run.run d').1 = .ok contents
  others : ∀ other, d.Separate path other →
    ((readText other).run.run d').1 = ((readText other).run.run d).1 ∧ d'.read other = d.read other

/-- Writing goes on as if the directories had been there. -/
theorem run_writeText_prepared (hwrite : (writeText path contents).run.run d = (.ok (), d')) :
    ∃ d₁, (createDirectories path.directory.ancestors).run d = (.ok (), d₁) ∧
      ∀ left directory, Disk.checkPath path.directory = .ok () → path.directory.isEmpty = false →
        d₁.Arrives maxLinks (d₁.start path.directory) path.directory.steps left directory →
        (writeText path contents).run.run d₁ = (.ok (), d') := by
  rw [writeText] at hwrite
  obtain ⟨⟨⟩, d₀, hcheck, hbehind⟩ := run_bind_eq_ok hwrite
  obtain rfl : d₀ = d := by
    rw [← run_checkDirectory path.directory d, hcheck]
  obtain ⟨result, d₁, hcreate, hrest⟩ := run_bind_eq_ok hbehind
  rcases hmake : (createDirectories path.directory.ancestors).run d₀ with ⟨made, d₂⟩
  rw [run_lift hmake] at hcreate
  cases hcreate
  cases result with
  | error cause => cases hrest
  | ok =>
    refine ⟨d₁, rfl, fun left directory hpath hempty harrives ↦ ?_⟩
    rw [writeText, run_bind_ok (run_checkDirectory_of_arrives hpath harrives),
      run_bind_ok (run_lift (run_createDirectories hpath hempty harrives))]
    exact hrest

/-- A file was written, and its directories were made if they were not there. -/
theorem written_of_writeText (htree : d.IsTree) (hworking : d.HasWorkingDirectory)
    (hname : Path.IsFileName name) (hvacant : d.IsVacantOrFile (p.join name)) (hroom : d.CanHold p)
    (hwrite : (writeText (p.join name) contents).run.run d = (.ok (), d')) :
    Written d d' (p.join name) contents := by
  obtain ⟨d₁, hmake, hrest⟩ := run_writeText_prepared hwrite
  obtain ⟨directory, hprepared⟩ := prepared_of_run htree hname hvacant hroom hmake
  have hentry := hprepared.namesEntry
  have hextends := hprepared.extends htree
  obtain ⟨left, harrives⟩ := arrives_directory hentry
  have hwrite₁ := hrest left directory (Path.checkPath_directory hentry.isName hentry.check)
    (Path.isEmpty_directory _) harrives
  have hreplaceable := hprepared.replaceable htree hname hvacant
  have hreplaced := writeText_eq_ok hentry hreplaceable hwrite₁
  have hworking₁ := hextends.hasWorkingDirectory hworking
  refine ⟨readText_replaced hworking₁ hentry hreplaceable hreplaced,
    fun other hseparate ↦ ?_⟩
  have hworkingDirectory := hreplaced.workingDirectory.trans hextends.workingDirectory
  have hsame (l : Location) (hl : l ∈ d.touched other) : d'.node? l = d.node? l := by
    have hparents := Disk.hasDirectory_of_mem_touched hworking hl
    rw [hreplaced.frame l (hprepared.ne_entry hworking hseparate.apart hl)
        (hextends.hasDirectory hparents),
      hprepared.node?_eq hworking hseparate hl]
  exact ⟨readText_congr hworkingDirectory hsame, read_congr hworkingDirectory hsame⟩

/-! ## Whatever becomes of a write -/

/-- Where no file is, one is written, and all else is spared wherever the writing ends or fails. -/
theorem keeps_writeText_vacant (htree : d.IsTree) (hworking : d.HasWorkingDirectory)
    (hname : Path.IsFileName name) (hmissing : d.read (p.join name) = .error .notFound)
    (hroom : d.CanHold p) (contents : String) :
    (writeText (p.join name) contents).run.Keeps (fun d' ↦ d.Spares d' (p.join name))
      (fun _ _ ↦ True) d := by
  have hvacant : d.IsVacantOrFile (p.join name) := .inl hmissing
  have hcheck := hvacant.checkPath hname.toIsName
  by_cases hthere : ∃ directory, d.NamesEntry p name directory
  · obtain ⟨directory, hentry⟩ := hthere
    have hreplaceable := hvacant.replaceable hname hentry
    have hnot := hreplaceable.notDirectory
    have hkeeps := keeps_writeText (Disk.extends_erase (d := d) (List.concat_ne_nil name directory))
      (hworking.erase hnot) (hentry.erase hreplaceable) (NamesEntry.unused_erase directory name) contents
    exact hkeeps.mono (fun _ h ↦ Disk.spares_of_extends_erase hentry h htree hnot)
      fun _ _ _ h ↦ h
  · have hdown : ".." ∉ p.names := by
      rcases hroom with hkind | hdown
      · obtain ⟨left, directory, harrives⟩ := Disk.exists_arrives_of_kind hname.toIsName hkind
        exact absurd ⟨directory, hname.toIsName, hcheck, hname.size, left, harrives⟩ hthere
      · exact hdown
    have hkeeps : (writeText (p.join name) contents).run.Keeps (Extends d) (fun _ _ ↦ True) d := by
      rw [writeText]
      apply Keeps.bind_ok
      refine (keeps_checkDirectory (.refl d) _).mono (fun _ ↦ id) ?_
      rintro (failure | ⟨⟩) d₀ - ⟨rfl, -⟩
      · trivial
      apply Keeps.bind_ok
      apply keeps_lift
      refine (keeps_prepare htree hname.toIsName hcheck hname.size hdown).mono (fun _ ↦ id)
        fun result d₁ h₁ hresult ↦ ?_
      cases result with
      | error cause => exact ⟨h₁, trivial⟩
      | ok =>
        obtain ⟨directory, hprepared⟩ := hresult rfl
        have hne : d₁ ≠ d₀ := by
          rintro rfl
          exact hthere ⟨directory, hprepared.namesEntry⟩
        refine (keeps_writeTemporary (.refl d₁) (h₁.hasWorkingDirectory hworking) hprepared.namesEntry
          (fun _ ↦ (hprepared.node?_of_ne htree hne).1) _ contents).mono
          (fun _ h ↦ h₁.trans h) fun _ _ _ h ↦ h
    exact hkeeps.mono (fun _ h ↦ h.spares htree _) fun _ _ _ h ↦ h

end Access

end LayeredConfig
