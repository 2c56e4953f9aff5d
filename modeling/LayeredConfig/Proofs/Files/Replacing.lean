import LayeredConfig.Proofs.Files.Entries
import LayeredConfig.Proofs.Files.Reading
import LayeredConfig.Proofs.Outcome

/-!
# Files are replaced and nothing else

A file is filled under a fresh name beside its path and then takes the place of the entry of that
path. Behind it, that entry holds the new contents, and all other entries are what they were. The
entry may be free, or lead to a file.
-/

namespace LayeredConfig

namespace Disk

variable {d d' : Disk} {p path : Path} {follow : Bool} {place : Place} {l : Location}
  {node : FileNode} {contents : ByteArray}

/-! ## Operations that succeed -/

theorem resolve_eq_ok (h : d.resolve follow path = .ok place) :
    checkPath path = .ok () ∧ d.walk follow maxLinks (d.start path) path.steps = .ok place := by
  obtain ⟨⟨⟩, hcheck, hwalk⟩ := bind_eq_ok_iff.1 h
  exact ⟨hcheck, hwalk⟩

theorem lookup_eq_ok (h : d.lookup follow path = .ok (l, node)) :
    checkPath path = .ok () ∧
      d.walk follow maxLinks (d.start path) path.steps = .ok (.found l node) := by
  obtain ⟨place, hresolve, h⟩ := bind_eq_ok_iff.1 h
  cases place with
  | found =>
    cases h
    exact resolve_eq_ok hresolve
  | free => cases h

theorem lookup_of_walk (hcheck : checkPath path = .ok ())
    (hwalk : d.walk follow maxLinks (d.start path) path.steps = .ok (.found l node)) :
    d.lookup follow path = .ok (l, node) := by
  rw [lookup, resolve_of_walk hcheck hwalk]
  rfl

theorem read_eq_ok (h : d.read path = .ok contents) :
    ∃ l executable, d.lookup true path = .ok (l, .file contents executable) := by
  obtain ⟨⟨l, node⟩, hlookup, h⟩ := bind_eq_ok_iff.1 h
  cases node with
  | file old executable =>
    obtain rfl := Except.ok.inj h
    exact ⟨l, executable, hlookup⟩
  | directory => cases h
  | link => cases h

/-! ## Entries of joined paths -/

/-- A joined path names an entry of the directory that the names of the path lead to. -/
structure NamesEntry (d : Disk) (p : Path) (name : String) (directory : Location) : Prop where
  isName : Path.IsName name
  check : checkPath (p.join name) = .ok ()
  size : ¬ name.utf8ByteSize > maxNameBytes
  arrives : ∃ left, d.Arrives maxLinks (d.start (p.join name)) p.names left directory

/-- An entry of a directory is a file or leads to one. -/
def LeadsToFile (d : Disk) (directory : Location) (name : String) : Prop :=
  ∃ left goal contents executable,
    d.walk true left directory [name] = .ok (.found goal (.file contents executable))

variable {directory goal : Location} {name : String} {old : ByteArray} {executable : Bool}

theorem size_le_of_walk (hname : Path.IsName name) {left : Nat}
    (h : d.walk follow left directory [name] = .ok place) :
    ¬ name.utf8ByteSize > maxNameBytes := by
  intro hsize
  rw [walk_name hname.ne_dot hname.ne_dots, if_pos hsize] at h
  cases h

/-- The file that is found at a joined path is what an entry leads to. -/
theorem namesEntry_of_lookup (hname : Path.IsName name)
    (h : d.lookup true (p.join name) = .ok (goal, .file old executable)) :
    ∃ directory, d.NamesEntry p name directory ∧ d.LeadsToFile directory name := by
  obtain ⟨hcheck, hwalk⟩ := lookup_eq_ok h
  rw [Path.steps_join hname] at hwalk
  obtain ⟨left, directory, harrives⟩ := arrives_of_walk_append hwalk
  rw [harrives.walk_append] at hwalk
  exact ⟨directory, ⟨hname, hcheck, size_le_of_walk hname hwalk, left, harrives⟩,
    left, goal, old, executable, hwalk⟩

/-- What leads to a file is an entry, and no directory. -/
theorem LeadsToFile.node? (h : d.LeadsToFile directory name) (hname : Path.IsName name) :
    d.node? (directory ++ [name]) ≠ none ∧ d.node? (directory ++ [name]) ≠ some .directory := by
  obtain ⟨left, goal, contents, executable, h⟩ := h
  rw [walk_name hname.ne_dot hname.ne_dots] at h
  split at h
  · cases h
  split at h
  · cases h
  · rw [walk_nil] at h
    cases h
  · rename_i hnode
    rw [hnode]
    exact ⟨Option.some_ne_none _, fun heq ↦ by cases heq⟩
  · rename_i hnode
    rw [hnode]
    exact ⟨Option.some_ne_none _, fun heq ↦ by cases heq⟩

/-- An entry that a file can be put in the place of: no walk to a directory goes over it, and no
temporary file takes its name. -/
structure Replaceable (d : Disk) (directory : Location) (name : String) : Prop where
  isLeaf : ∀ links left goal, ¬ d.Arrives links directory [name] left goal
  notDirectory : d.node? (directory ++ [name]) ≠ some .directory
  notTemporary : d.freshName directory ≠ name

theorem LeadsToFile.replaceable (h : d.LeadsToFile directory name) (hname : Path.IsName name) :
    d.Replaceable directory name := by
  obtain ⟨hsome, hnot⟩ := h.node? hname
  obtain ⟨links, file, contents, executable, hwalk⟩ := h
  refine ⟨fun links' left goal harrives ↦ ?_, hnot, fun heq ↦ ?_⟩
  · cases walk_unique hwalk harrives.walk_eq
  · have hfresh := node?_freshName d directory
    rw [heq] at hfresh
    exact hsome hfresh

theorem replaceable_of_free (hfree : d.node? (directory ++ [name]) = none)
    (hdot : name.toList.head? ≠ some '.') : d.Replaceable directory name := by
  have hname : ∀ rest : String, rest.toList.head? = some '.' → name ≠ rest := by
    rintro rest hrest rfl
    exact hdot hrest
  refine ⟨fun links left goal harrives ↦ ?_, ?_, fun heq ↦ ?_⟩
  · cases harrives with
    | dot => exact hdot (by decide)
    | up => exact hdot (by decide)
    | enter _ _ _ hnode =>
      rw [hfree] at hnode
      cases hnode
    | follow _ _ _ hnode =>
      rw [hfree] at hnode
      cases hnode
  · rw [hfree]
    exact fun heq ↦ by cases heq
  · obtain ⟨number, hnumber⟩ := freshName_eq d directory
    refine hname _ ?_ (heq.symm.trans hnumber)
    rw [toList_temporaryName]
    rfl

/-- No walk to a directory goes over this location. -/
def FileOrFree (d : Disk) (l : Location) : Prop :=
  ∀ old ∈ d.node? l, ∃ contents executable, old = .file contents executable

theorem fileOrFree_of_free (h : d.node? l = none) : d.FileOrFree l := by
  intro old hmem
  rw [h] at hmem
  cases hmem

theorem fileOrFree_insert_file (h : l ≠ []) (contents : ByteArray) (executable : Bool) :
    (d.insert l (.file contents executable)).FileOrFree l := by
  intro old hmem
  rw [node?_insert_self h] at hmem
  exact ⟨contents, executable, (Option.some.inj hmem).symm⟩

theorem Arrives.insert {links left : Nat} {steps : List String}
    (h : d.Arrives links directory steps left goal) (hl : d.FileOrFree l) (node : FileNode) :
    (d.insert l node).Arrives links directory steps left goal := by
  refine h.mono fun l' node' hnode hfile ↦ ?_
  rw [node?_insert_of_ne, hnode]
  rintro rfl
  obtain ⟨contents, executable, heq⟩ := hl node' hnode
  exact hfile contents executable heq

namespace NamesEntry

theorem insert (h : d.NamesEntry p name directory) (hl : d.FileOrFree l) (node : FileNode) :
    (d.insert l node).NamesEntry p name directory := by
  obtain ⟨left, harrives⟩ := h.arrives
  exact ⟨h.isName, h.check, h.size, left, harrives.insert hl node⟩

theorem resolve_free (h : d.NamesEntry p name directory)
    (hfree : d.node? (directory ++ [name]) = none) :
    d.resolve follow (p.join name) = .ok (.free directory name) := by
  obtain ⟨left, harrives⟩ := h.arrives
  apply resolve_of_walk h.check
  rw [Path.steps_join h.isName, harrives.walk_append, walk_name h.isName.ne_dot h.isName.ne_dots,
    if_neg h.size, hfree]
  rfl

theorem lookup_file (h : d.NamesEntry p name directory)
    (hnode : d.node? (directory ++ [name]) = some (.file old executable)) :
    d.lookup follow (p.join name) = .ok (directory ++ [name], .file old executable) := by
  obtain ⟨left, harrives⟩ := h.arrives
  apply lookup_of_walk h.check
  rw [Path.steps_join h.isName, harrives.walk_append, walk_name h.isName.ne_dot h.isName.ne_dots,
    if_neg h.size, hnode]
  rfl

theorem write (h : d.NamesEntry p name directory)
    (hnode : d.node? (directory ++ [name]) = some (.file old executable)) (contents : ByteArray) :
    d.write (p.join name) contents =
      .ok (d.insert (directory ++ [name]) (.file contents executable)) := by
  rw [Disk.write, h.lookup_file hnode]
  rfl

theorem entryPlace (h : d.NamesEntry p name directory) :
    d.entryPlace (p.join name) = .ok ⟨directory, name, false⟩ := by
  obtain ⟨left, harrives⟩ := h.arrives
  have hlast : (p.names ++ [name]).getLast?.getD "." = name := by
    rw [List.getLast?_concat]
    rfl
  rw [Disk.entryPlace, h.check, Path.names_join h.isName, List.dropLast_concat, harrives.walk_eq,
    Path.hasTrailingSlash_join h.isName, hlast]
  exact if_neg h.size

theorem isProper (h : d.NamesEntry p name directory) :
    EntryPlace.isProper ⟨directory, name, false⟩ = true := by
  rw [EntryPlace.isProper, Bool.and_eq_true, bne_iff_ne, bne_iff_ne]
  exact ⟨h.isName.ne_dot, h.isName.ne_dots⟩

/-- A file is renamed over an entry beside it that is no directory. -/
theorem rename {q : Path} {source : String} (hsource : d.NamesEntry q source directory)
    (htarget : d.NamesEntry p name directory)
    (hnode : d.node? (directory ++ [source]) = some (.file old executable)) (hne : source ≠ name)
    (hfile : d.node? (directory ++ [name]) ≠ some .directory) :
    d.rename (q.join source) (p.join name) =
      .ok (d.move (directory ++ [source]) (directory ++ [name])) := by
  have htargetPlace : d.targetPlace (p.join name) = .ok ⟨directory, name, false⟩ := by
    rw [targetPlace, htarget.entryPlace]
  have hprefix : ∀ name : String, (directory ++ [name]).isPrefixOf directory = false := by
    intro name
    rw [Bool.eq_false_iff, ne_eq, List.isPrefixOf_iff_prefix]
    intro hprefix
    have hlength := hprefix.length_le
    rw [List.length_append, List.length_singleton] at hlength
    omega
  have hlocation : directory ++ [source] ≠ directory ++ [name] :=
    fun heq ↦ hne (List.cons.inj (List.append_cancel_left heq)).1
  rw [Disk.rename, hsource.entryPlace, htargetPlace]
  simp only [ok_bind, hsource.isProper, htarget.isProper, EntryPlace.location, hnode, hprefix,
    if_neg hlocation]
  cases hother : d.node? (directory ++ [name]) with
  | none => rfl
  | some other =>
    cases other with
    | file => rfl
    | link => rfl
    | directory => exact absurd hother hfile

end NamesEntry

/-- A temporary file is a new entry of the directory that it is made in. -/
theorem createTemporary_eq_ok {q : Path} (h : d.createTemporary path = .ok (q, d')) :
    ∃ directory, d.lookup true path = .ok (directory, .directory) ∧
      q = path.join (d.freshName directory) ∧
      d.NamesEntry path (d.freshName directory) directory ∧
      d' = d.insert (directory ++ [d.freshName directory]) (.file ByteArray.empty false) := by
  obtain ⟨⟨directory, node⟩, hlookup, h⟩ := bind_eq_ok_iff.1 h
  cases node with
  | file => cases h
  | link => cases h
  | directory =>
    obtain ⟨place, hresolve, h⟩ := bind_eq_ok_iff.1 h
    have hname := isName_freshName d directory
    obtain ⟨hcheck, hwalk⟩ := lookup_eq_ok hlookup
    obtain ⟨left, harrives⟩ := arrives_of_walk hwalk
    have harrives' : d.Arrives maxLinks (d.start (path.join (d.freshName directory))) path.names left
        directory := by
      rw [start, Path.isAbsolute_join hname (Path.isEmpty_of_checkPath hcheck)]
      exact harrives.of_undotted (Path.undotted_steps path).symm
    obtain ⟨hcheck', hwalk'⟩ := resolve_eq_ok hresolve
    rw [Path.steps_join hname, harrives'.walk_append] at hwalk'
    have hentry : d.NamesEntry path (d.freshName directory) directory :=
      ⟨hname, hcheck', size_le_of_walk hname hwalk', left, harrives'⟩
    rw [hentry.resolve_free (node?_freshName d directory)] at hresolve
    cases hresolve
    cases h
    exact ⟨directory, hlookup, rfl, hentry, rfl⟩

theorem createTemporary_of_perform {q : Path} (h : d.perform (.createTemporary path) = (.ok q, d')) :
    d.createTemporary path = .ok (q, d') := by
  rw [perform] at h
  split at h
  · rename_i hcreate
    cases h
    exact hcreate
  · cases h

/-! ## The disk behind a replacement -/

/-- The disk on which a temporary file was filled and put in the place of an entry. -/
def replace (d : Disk) (directory : Location) (name : String) (contents : ByteArray) : Disk :=
  let temporary := directory ++ [d.freshName directory]
  ((d.insert temporary (.file ByteArray.empty false)).insert temporary (.file contents false)).move
    temporary (directory ++ [name])

/-- An entry holds new contents, and no other entry that directories lead to has changed. -/
structure Replaced (d d' : Disk) (entry : Location) (contents : ByteArray) : Prop where
  workingDirectory : d'.workingDirectory = d.workingDirectory
  holds : d'.node? entry = some (.file contents false)
  frame : ∀ l, l ≠ entry → d.HasDirectory l.dropLast → d'.node? l = d.node? l

theorem replaced_replace (hreplaceable : d.Replaceable directory name) (contents : ByteArray) :
    Replaced d (d.replace directory name contents) (directory ++ [name]) contents := by
  have hnot := hreplaceable.notDirectory
  have hfresh := node?_freshName d directory
  have hne : directory ++ [d.freshName directory] ≠ directory ++ [name] :=
    fun heq ↦ hreplaceable.notTemporary (List.cons.inj (List.append_cancel_left heq)).1
  refine ⟨rfl, ?_, fun l hl hparents ↦ ?_⟩
  · rw [replace, node?_move_target (List.concat_ne_nil _ _) (List.concat_ne_nil _ _) hne,
      node?_insert_self (List.concat_ne_nil _ _)]
  · have hentry : ¬ directory ++ [name] <+: l :=
      fun habove ↦ hnot (hparents.node?_of_above habove hl)
    rw [replace]
    by_cases htemporary : l = directory ++ [d.freshName directory]
    · subst htemporary
      rw [node?_move_source (List.concat_ne_nil _ _) hentry, hfresh]
    · have hbelow : ¬ directory ++ [d.freshName directory] <+: l := by
        intro habove
        rw [hparents.node?_of_above habove htemporary] at hfresh
        cases hfresh
      rw [node?_move_of_not_below hbelow hentry, node?_insert_of_ne htemporary,
        node?_insert_of_ne htemporary]

end Disk

namespace Access

open LayeredConfig.FileProgram
open LayeredConfig.Disk (maxLinks NamesEntry Replaceable Replaced)

variable {d d' : Disk} {p path : Path} {name text contents : String} {left : Nat}
  {directory : Location}

/-! ## Directories that are there -/

theorem ancestors_eq (path : Path) : ∃ above, path.ancestors = path :: above := by
  rw [Path.ancestors]
  split
  · exact ⟨_, rfl⟩
  · exact ⟨_, rfl⟩

/-- What the names of a path lead to, the directory of a joined path leads to. -/
theorem arrives_directory (h : d.NamesEntry p name directory) :
    ∃ left, d.Arrives maxLinks (d.start (p.join name).directory) (p.join name).directory.steps left
      directory := by
  obtain ⟨left, harrives⟩ := h.arrives
  obtain ⟨hsteps, habsolute⟩ := Path.directory_join h.isName p
  refine ⟨left, ?_⟩
  rw [Disk.start, habsolute]
  exact harrives.of_undotted hsteps

theorem kind_of_arrives (hcheck : Disk.checkPath path = .ok ())
    (h : d.Arrives maxLinks (d.start path) path.steps left directory) :
    d.perform (.kind path) = (.ok .directory, d) := by
  rw [Disk.perform, Disk.kind, Disk.lookup_of_walk hcheck h.walk_eq]
  rfl

theorem run_checkDirectory_of_arrives (hcheck : Disk.checkPath path = .ok ())
    (h : d.Arrives maxLinks (d.start path) path.steps left directory) :
    (checkDirectory path).run.run d = (.ok (), d) := by
  obtain ⟨above, habove⟩ := ancestors_eq path
  change (checkDirectories path.ancestors).run d = _
  rw [habove, checkDirectories, run_bind, run_call, kind_of_arrives hcheck h]
  rfl

/-- A directory that is there is not created. -/
theorem run_createDirectories (hcheck : Disk.checkPath path = .ok ()) (hne : path.isEmpty = false)
    (h : d.Arrives maxLinks (d.start path) path.steps left directory) :
    (createDirectories path.ancestors).run d = (.ok (), d) := by
  obtain ⟨above, habove⟩ := ancestors_eq path
  obtain ⟨l, node, hfound⟩ := h.exists_found
  have hcreate : d.perform (.createDirectory path) = (.error .alreadyExists, d) := by
    rw [Disk.perform, Disk.createDirectory, Disk.resolve_of_walk hcheck hfound]
    rfl
  rw [habove, createDirectories, hne, if_neg Bool.false_ne_true, run_bind, run_call, hcreate]
  dsimp only
  rw [isDirectory, run_bind, run_bind, run_call, kind_of_arrives hcheck h]
  rfl

/-! ## Filling and replacing -/

theorem run_lift {α ε : Type} {work : FileProgram α} {a : α} (h : work.run d = (a, d')) :
    (ExceptT.lift work : ExceptT ε FileProgram α).run.run d = (.ok a, d') := by
  change (work >>= _ : FileProgram _).run d = _
  rw [run_bind, h]
  rfl

/-- A temporary file is an entry of the directory that it was made in. -/
theorem perform_createTemporary (hcheck : Disk.checkPath path = .ok ())
    (h : d.Arrives maxLinks (d.start path) path.steps left directory)
    (htemporary : d.NamesEntry path (d.freshName directory) directory) :
    d.perform (.createTemporary path) = (.ok (path.join (d.freshName directory)),
      d.insert (directory ++ [d.freshName directory]) (.file ByteArray.empty false)) := by
  have hcreate : d.createTemporary path = .ok (path.join (d.freshName directory),
      d.insert (directory ++ [d.freshName directory]) (.file ByteArray.empty false)) := by
    rw [Disk.createTemporary, Disk.lookup_of_walk hcheck h.walk_eq, ok_bind]
    dsimp only
    rw [htemporary.resolve_free (Disk.node?_freshName d directory)]
    rfl
  rw [Disk.perform, hcreate]

theorem run_fillAndReplace {d₁ d₂ : Disk} {temporary : Path}
    (hwrite : d.write temporary contents.toUTF8 = .ok d₁)
    (hrename : d₁.rename temporary path = .ok d₂) :
    (fillAndReplace path temporary contents).run.run d = (.ok (), d₂) := by
  have hfill : d.perform (.write temporary contents.toUTF8) = (.ok (), d₁) := by
    rw [Disk.perform, hwrite]
    rfl
  have hreplace : d₁.perform (.rename temporary path) = (.ok (), d₂) := by
    rw [Disk.perform, hrename]
    rfl
  have hfirst : (attempt .write path (.write temporary contents.toUTF8)).run.run d = (.ok (), d₁) :=
    run_attempt hfill
  have hboth := (run_bind_ok hfirst fun _ ↦ attempt .replace path (.rename temporary path)).trans
    (run_attempt hreplace)
  unfold fillAndReplace
  change (FileProgram.run (_ >>= _) d) = _
  rw [run_bind]
  generalize hinner : FileProgram.run (ExceptT.run _) d = result
  obtain rfl := hinner.symm.trans hboth
  rfl

/-- Filling a new temporary file puts it in the place of an entry beside it. -/
theorem run_fillAndReplace_temporary {q : Path} {temporary : String}
    (h : d.NamesEntry p name directory) (hnot : d.node? (directory ++ [name]) ≠ some .directory)
    (hne : temporary ≠ name) (htemporary : d.NamesEntry q temporary directory)
    (hfresh : d.node? (directory ++ [temporary]) = none) :
    (fillAndReplace (p.join name) (q.join temporary) contents).run.run
        (d.insert (directory ++ [temporary]) (.file ByteArray.empty false)) =
      (.ok (), ((d.insert (directory ++ [temporary]) (.file ByteArray.empty false)).insert
        (directory ++ [temporary]) (.file contents.toUTF8 false)).move (directory ++ [temporary])
          (directory ++ [name])) := by
  have hl : directory ++ [temporary] ≠ [] := List.concat_ne_nil _ _
  have hlocation : directory ++ [name] ≠ directory ++ [temporary] :=
    fun heq ↦ hne (List.cons.inj (List.append_cancel_left heq)).1.symm
  have hfree := Disk.fileOrFree_of_free hfresh
  have hfilled := Disk.fileOrFree_insert_file (d := d) hl ByteArray.empty false
  have htemporary₁ := htemporary.insert hfree (.file ByteArray.empty false)
  have htemporary₂ := htemporary₁.insert hfilled (.file contents.toUTF8 false)
  have h₂ := (h.insert hfree (.file ByteArray.empty false)).insert hfilled
    (.file contents.toUTF8 false)
  apply run_fillAndReplace (htemporary₁.write (Disk.node?_insert_self hl) contents.toUTF8)
  apply htemporary₂.rename h₂ (Disk.node?_insert_self hl) hne
  rw [Disk.node?_insert_of_ne hlocation, Disk.node?_insert_of_ne hlocation]
  exact hnot

/-- Writing puts a file in the place of an entry, also of a link to a directory. -/
theorem run_writeText_entry (h : d.NamesEntry p name directory)
    (hnot : d.node? (directory ++ [name]) ≠ some .directory) (hne : d.freshName directory ≠ name)
    (htemporary : d.NamesEntry (p.join name).directory (d.freshName directory) directory) :
    (writeText (p.join name) contents).run.run d =
      (.ok (), d.replace directory name contents.toUTF8) := by
  obtain ⟨left, hdirectory⟩ := arrives_directory h
  have hcheck := Path.checkPath_directory h.isName h.check
  rw [writeText, run_bind_ok (run_checkDirectory_of_arrives hcheck hdirectory),
    run_bind_ok (run_lift (run_createDirectories hcheck (Path.isEmpty_directory _) hdirectory))]
  dsimp only
  rw [run_bind_ok (run_attempt (perform_createTemporary hcheck hdirectory htemporary))]
  exact run_fillAndReplace_temporary h hnot hne htemporary (Disk.node?_freshName d directory)

/-- Writing replaces an entry, when a temporary file can be named. -/
theorem run_writeText (h : d.NamesEntry p name directory) (hreplaceable : d.Replaceable directory name)
    (htemporary : d.NamesEntry (p.join name).directory (d.freshName directory) directory) :
    (writeText (p.join name) contents).run.run d =
      (.ok (), d.replace directory name contents.toUTF8) :=
  run_writeText_entry h hreplaceable.notDirectory hreplaceable.notTemporary htemporary

/-- A write has replaced the entry when it succeeded. -/
theorem writeText_eq_ok (h : d.NamesEntry p name directory)
    (hreplaceable : d.Replaceable directory name)
    (hwrite : (writeText (p.join name) contents).run.run d = (.ok (), d')) :
    Replaced d d' (directory ++ [name]) contents.toUTF8 := by
  obtain ⟨left, hdirectory⟩ := arrives_directory h
  have hcheck := Path.checkPath_directory h.isName h.check
  have hempty := Path.isEmpty_directory (p.join name)
  have hrest := hwrite
  rw [writeText, run_bind_ok (run_checkDirectory_of_arrives hcheck hdirectory),
    run_bind_ok (run_lift (run_createDirectories hcheck hempty hdirectory))] at hrest
  dsimp only at hrest
  obtain ⟨temporary, d₁, hmake, -⟩ := run_bind_eq_ok hrest
  obtain ⟨directory', hlookup, -, htemporary, -⟩ :=
    Disk.createTemporary_eq_ok (Disk.createTemporary_of_perform (attempt_eq_ok hmake))
  rw [Disk.lookup_of_walk hcheck hdirectory.walk_eq] at hlookup
  cases hlookup
  rw [run_writeText h hreplaceable htemporary] at hwrite
  cases hwrite
  exact Disk.replaced_replace hreplaceable contents.toUTF8

end Access

end LayeredConfig
