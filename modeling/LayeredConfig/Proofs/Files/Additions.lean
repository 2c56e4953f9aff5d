import LayeredConfig.Proofs.Files.Faults

/-!
# Writing a file that was not there

While a new file is written, with any faults, whatever there was before stays as it is: directories
are created at free names, and the temporary file and the new one both take names that were free.
-/

namespace LayeredConfig

namespace Disk

variable {d d' d'' : Disk} {p path : Path} {l directory goal base : Location} {name : String}
  {links left : Nat} {steps : List String} {node : FileNode} {contents : ByteArray} {follow : Bool}

/-! ## What is only added to -/

/-- All that directories lead to in `d` is in `d'`. -/
structure Extends (d d' : Disk) : Prop where
  workingDirectory : d'.workingDirectory = d.workingDirectory
  keeps : ∀ l node, d.node? l = some node → d.HasDirectory l.dropLast → d'.node? l = some node

/-- A location at which nothing stands that directories lead to. -/
def Unused (d : Disk) (l : Location) : Prop :=
  d.HasDirectory l.dropLast → d.node? l = none

theorem Unused.not_prefix (h : d.Unused l) {below : Location} (hnode : d.node? below = some node)
    (hparents : d.HasDirectory below.dropLast) : ¬ l <+: below := by
  intro hprefix
  by_cases heq : below = l
  · subst heq
    rw [h hparents] at hnode
    cases hnode
  · have habove := hparents.node?_of_above hprefix heq
    have hl : d.HasDirectory l.dropLast := by
      obtain ⟨rest, rfl⟩ := hprefix
      have hrest : rest ≠ [] := fun hnil ↦ heq (by rw [hnil, List.append_nil])
      rw [List.dropLast_append_of_ne_nil hrest] at hparents
      exact fun above h' ↦ hparents above
        ((h'.trans (List.dropLast_prefix l)).trans (List.prefix_append l _))
    rw [h hl] at habove
    cases habove

namespace Extends

theorem refl (d : Disk) : Extends d d :=
  ⟨rfl, fun _ _ hnode _ ↦ hnode⟩

theorem unused (h : Extends d d') (hfree : d'.node? l = none) : d.Unused l := by
  intro hparents
  rw [Option.eq_none_iff_forall_ne_some]
  intro node hnode
  rw [h.keeps l node hnode hparents] at hfree
  cases hfree

theorem start_eq (h : Extends d d') (path : Path) : d'.start path = d.start path := by
  rw [start, start, h.workingDirectory]

theorem node?_of_mem_trail (h : Extends d d') (hbase : d.HasDirectory base)
    (hwalk : d.walk true links base steps = .ok (.found goal node))
    (hl : l ∈ d.trail links base steps) : d'.node? l = d.node? l := by
  obtain ⟨node', hnode⟩ := Option.ne_none_iff_exists'.1 (Disk.node?_of_mem_trail hwalk hl)
  rw [hnode, h.keeps l node' hnode (hasDirectory_of_mem_trail hbase hl)]

theorem namesEntry (h : Extends d d') (hworking : d.HasWorkingDirectory)
    (hentry : d.NamesEntry p name directory) : d'.NamesEntry p name directory := by
  obtain ⟨left, harrives⟩ := hentry.arrives
  have harrives' : d'.Arrives _ _ _ _ _ := harrives.congr fun _ hl ↦
    h.node?_of_mem_trail (hworking.start _) harrives.walk_eq hl
  rw [← h.start_eq] at harrives'
  exact ⟨hentry.isName, hentry.check, hentry.size, left, harrives'⟩

theorem read_eq (h : Extends d d') (hworking : d.HasWorkingDirectory)
    (hread : d.read path = .ok contents) : d'.read path = .ok contents := by
  obtain ⟨goal, executable, hlookup⟩ := read_eq_ok hread
  obtain ⟨hcheck, hwalk⟩ := lookup_eq_ok hlookup
  apply read_of_walk hcheck
  rw [h.start_eq, walk_congr fun _ hl ↦ h.node?_of_mem_trail (hworking.start _) hwalk hl]
  exact hwalk

theorem insert (h : Extends d d') (hl : d.Unused l) (node : FileNode) :
    Extends d (d'.insert l node) := by
  refine ⟨h.workingDirectory, fun l' node' hnode hparents ↦ ?_⟩
  have hne : l' ≠ l := by
    rintro rfl
    exact hl.not_prefix hnode hparents (List.prefix_refl _)
  rw [node?_insert_of_ne hne, h.keeps l' node' hnode hparents]

theorem erase (h : Extends d d') (hl : d.Unused l) : Extends d (d'.erase l) := by
  refine ⟨h.workingDirectory, fun l' node' hnode hparents ↦ ?_⟩
  have hne : l' ≠ l := by
    rintro rfl
    exact hl.not_prefix hnode hparents (List.prefix_refl _)
  rw [node?_erase_of_ne hne, h.keeps l' node' hnode hparents]

theorem move {source target : Location} (h : Extends d d') (hsource : d.Unused source)
    (htarget : d.Unused target) : Extends d (d'.move source target) := by
  refine ⟨h.workingDirectory, fun l' node' hnode hparents ↦ ?_⟩
  rw [node?_move_of_not_below (hsource.not_prefix hnode hparents) (htarget.not_prefix hnode hparents),
    h.keeps l' node' hnode hparents]

end Extends

/-! ## Operations that add something -/

theorem node?_of_walk_free (h : d.walk follow links base steps = .ok (.free directory name)) :
    d.node? (directory ++ [name]) = none := by
  induction links, base, steps using walk_induction with
  | nil =>
    rw [walk_nil] at h
    cases h
  | dot links base rest ih =>
    rw [walk_dot] at h
    exact ih h
  | up links base rest ih =>
    rw [walk_up] at h
    exact ih h
  | name links base step rest hdot hup ih ihLink =>
    rw [walk_name hdot hup] at h
    split at h
    · cases h
    split at h
    · rename_i hnone
      split at h
      · cases h
        exact hnone
      · cases h
    · exact ih h
    · split at h <;> cases h
    · rename_i target hnode
      split at h
      · cases h
      · cases links with
        | zero => cases h
        | succ left => exact ihLink left _ target rfl h

theorem createDirectory_eq_ok (h : d.createDirectory p = .ok d') :
    ∃ l, d.node? l = none ∧ d' = d.insert l .directory := by
  obtain ⟨place, hresolve, h⟩ := bind_eq_ok_iff.1 h
  cases place with
  | found => cases h
  | free directory name =>
    exact ⟨directory ++ [name], node?_of_walk_free (resolve_eq_ok hresolve).2, (Except.ok.inj h).symm⟩

/-- A path joined to a directory at which a file stands. -/
structure HoldsFile (d : Disk) (p : Path) (name : String) (directory : Location) : Prop where
  isName : Path.IsName name
  arrives : ∃ left, d.Arrives maxLinks (d.start (p.join name)) p.names left directory
  holds : ∃ contents executable, d.node? (directory ++ [name]) = some (.file contents executable)

namespace HoldsFile

theorem insert (h : d.HoldsFile p name directory) (contents : ByteArray) (executable : Bool) :
    (d.insert (directory ++ [name]) (.file contents executable)).HoldsFile p name directory := by
  obtain ⟨left, harrives⟩ := h.arrives
  obtain ⟨old, wasExecutable, hnode⟩ := h.holds
  refine ⟨h.isName, ⟨left, harrives.insert ?_ _⟩, contents, executable,
    node?_insert_self (List.concat_ne_nil _ _)⟩
  intro node hmem
  rw [hnode] at hmem
  exact ⟨old, wasExecutable, (Option.some.inj hmem).symm⟩

theorem location_of_lookup (h : d.HoldsFile p name directory)
    (hlookup : d.lookup follow (p.join name) = .ok (l, node)) : l = directory ++ [name] := by
  obtain ⟨left, harrives⟩ := h.arrives
  obtain ⟨contents, executable, hnode⟩ := h.holds
  obtain ⟨-, hwalk⟩ := lookup_eq_ok hlookup
  rw [Path.steps_join h.isName, harrives.walk_append] at hwalk
  have hsize := size_le_of_walk h.isName hwalk
  rw [walk_name h.isName.ne_dot h.isName.ne_dots, if_neg hsize, hnode] at hwalk
  cases hwalk
  rfl

theorem location_of_entryPlace (h : d.HoldsFile p name directory) {e : EntryPlace}
    (he : d.entryPlace (p.join name) = .ok e) : e.location = directory ++ [name] := by
  obtain ⟨left, harrives⟩ := h.arrives
  obtain ⟨directory', hentry, rfl⟩ := namesEntry_of_entryPlace h.isName he
  obtain ⟨left', harrives'⟩ := hentry.arrives
  have hwalk := harrives'.walk_eq
  rw [harrives.walk_eq] at hwalk
  cases hwalk
  rfl

theorem write_eq_ok (h : d.HoldsFile p name directory)
    (hwrite : d.write (p.join name) contents = .ok d') :
    ∃ executable, d' = d.insert (directory ++ [name]) (.file contents executable) := by
  obtain ⟨⟨l, node⟩, hlookup, hwrite⟩ := bind_eq_ok_iff.1 hwrite
  cases node with
  | file old executable =>
    rw [← h.location_of_lookup hlookup]
    exact ⟨executable, (Except.ok.inj hwrite).symm⟩
  | directory => cases hwrite
  | link => cases hwrite

theorem remove_eq_ok (h : d.HoldsFile p name directory) (hremove : d.remove (p.join name) = .ok d') :
    d' = d.erase (directory ++ [name]) := by
  obtain ⟨⟨l, node⟩, hlookup, hremove⟩ := bind_eq_ok_iff.1 hremove
  rw [← h.location_of_lookup hlookup]
  cases node with
  | file => exact (Except.ok.inj hremove).symm
  | directory => cases hremove
  | link => exact (Except.ok.inj hremove).symm

end HoldsFile

/-- A file is put at a name that is free. -/
theorem NamesEntry.holdsFile_insert (h : d.NamesEntry path name directory)
    (hfree : d.node? (directory ++ [name]) = none) (contents : ByteArray) (executable : Bool) :
    (d.insert (directory ++ [name]) (.file contents executable)).HoldsFile path name directory := by
  obtain ⟨left, harrives⟩ := h.arrives
  exact ⟨h.isName, ⟨left, harrives.insert (fileOrFree_of_free hfree) _⟩, contents, executable,
    node?_insert_self (List.concat_ne_nil _ _)⟩

end Disk

namespace Access

open LayeredConfig.FileProgram
open LayeredConfig.Disk (Extends Unused HoldsFile)

variable {d d' : Disk} {p path : Path} {directory folder : Location} {name last : String}

variable {I : Disk → Prop}

theorem keeps_isDirectory (hI : I d) (path : Path) :
    (isDirectory path).Keeps I (fun _ _ ↦ True) d := by
  rw [isDirectory]
  apply Keeps.bind
  refine keeps_call hI fun answer d' hattempt ↦ ?_
  obtain rfl := hattempt.kind
  refine ⟨hI, ?_⟩
  split
  · exact keeps_pure hI trivial
  · exact keeps_pure hI trivial

/-- Whatever each new directory keeps is kept while directories are made. -/
theorem keeps_createDirectories_of
    (hcreate : ∀ {d d' : Disk} {path : Path}, I d → d.createDirectory path = .ok d' → I d')
    (hI : I d) (paths : List Path) : (createDirectories paths).Keeps I (fun _ _ ↦ True) d := by
  have hattempted {d d' : Disk} {path : Path} {answer : (FileOp.createDirectory path).Answer}
      (hI : I d) (hattempt : d.Attempt (.createDirectory path) answer d') : I d' := by
    obtain rfl | h := hattempt.createDirectory
    · exact hI
    · exact hcreate hI h
  induction paths generalizing d with
  | nil => exact keeps_pure hI trivial
  | cons path above ih =>
    have hcheck {d : Disk} (hI : I d) (cause : FileError) :
        (do return if ← isDirectory path then .ok () else .error cause :
          FileProgram (Except FileError Unit)).Keeps I (fun _ _ ↦ True) d :=
      Keeps.bind ((keeps_isDirectory hI path).mono (fun _ ↦ id) fun _ _ hI _ ↦ keeps_pure hI trivial)
    rw [createDirectories]
    split
    · exact keeps_pure hI trivial
    apply Keeps.bind
    refine keeps_call hI fun answer d₁ hattempt ↦ ?_
    have h₁ := hattempted hI hattempt
    refine ⟨h₁, ?_⟩
    split
    · exact keeps_pure h₁ trivial
    · apply Keeps.bind
      refine (ih h₁).mono (fun _ ↦ id) fun result d₂ h₂ _ ↦ ?_
      split
      · exact keeps_pure h₂ trivial
      · apply Keeps.bind
        refine keeps_call h₂ fun answer d₃ hattempt ↦ ?_
        have h₃ := hattempted h₂ hattempt
        refine ⟨h₃, ?_⟩
        split
        · exact keeps_pure h₃ trivial
        · exact hcheck h₃ _
    · exact hcheck h₁ _

theorem keeps_createDirectories (h : Extends d d') (paths : List Path) :
    (createDirectories paths).Keeps (Extends d) (fun _ _ ↦ True) d' := by
  refine keeps_createDirectories_of (fun {d₁ d₂ path} h hcreate ↦ ?_) h paths
  obtain ⟨l, hfree, rfl⟩ := Disk.createDirectory_eq_ok hcreate
  exact h.insert (h.unused hfree) .directory

/-- The path of a temporary file, which was not there. -/
structure Temporary (d d' : Disk) (path : Path) (name : String) (directory : Location) : Prop where
  holdsFile : d'.HoldsFile path name directory
  unused : d.Unused (directory ++ [name])

namespace Temporary

theorem write (h : Temporary d d' path name directory) (hextends : Extends d d') {written : ByteArray}
    {answer : (FileOp.write (path.join name) written).Answer} {d'' : Disk}
    (hattempt : d'.Attempt (.write (path.join name) written) answer d'') :
    Extends d d'' ∧ Temporary d d'' path name directory := by
  obtain rfl | ⟨written, hwrite⟩ := hattempt.write
  · exact ⟨hextends, h⟩
  · obtain ⟨executable, rfl⟩ := h.holdsFile.write_eq_ok hwrite
    exact ⟨hextends.insert h.unused _, h.holdsFile.insert written executable, h.unused⟩

theorem remove (h : Temporary d d' path name directory) (hextends : Extends d d')
    {answer : (FileOp.remove (path.join name)).Answer} {d'' : Disk}
    (hattempt : d'.Attempt (.remove (path.join name)) answer d'') : Extends d d'' := by
  obtain rfl | hremove := hattempt.remove
  · exact hextends
  · rw [h.holdsFile.remove_eq_ok hremove]
    exact hextends.erase h.unused

theorem rename (h : Temporary d d' path name directory) (hextends : Extends d d')
    (hworking : d.HasWorkingDirectory) (hentry : d.NamesEntry p last folder)
    (hfree : d.Unused (folder ++ [last])) {d'' : Disk}
    (hrename : d'.rename (path.join name) (p.join last) = .ok d'') : Extends d d'' := by
  obtain ⟨source, target, hsource, htarget, hcases⟩ := Disk.rename_cases hrename
  have hsourceLocation := h.holdsFile.location_of_entryPlace hsource
  obtain rfl := Except.ok.inj ((hextends.namesEntry hworking hentry).entryPlace.symm.trans htarget)
  rcases hcases with ⟨-, rfl⟩ | rfl
  · exact hextends
  · rw [hsourceLocation]
    exact hextends.move h.unused hfree

end Temporary

/-- A temporary file takes the place of an entry that was not there. -/
theorem keeps_fillAndReplace (h : Extends d d') (htemporary : Temporary d d' path name directory)
    (hworking : d.HasWorkingDirectory) (hentry : d.NamesEntry p last folder)
    (hfree : d.Unused (folder ++ [last])) (contents : String) :
    (fillAndReplace (p.join last) (path.join name) contents).run.Keeps (Extends d)
      (fun _ _ ↦ True) d' := by
  have hinner : (do
      attempt .write (p.join last) (.write (path.join name) contents.toUTF8)
      attempt .replace (p.join last) (.rename (path.join name) (p.join last)) :
        ExceptT FileFailure FileProgram Unit).run.Keeps (Extends d)
      (Ends (fun _ _ ↦ True) fun _ d' ↦ Temporary d d' path name directory) d' := by
    apply Keeps.bind_ok
    refine keeps_attempt h fun answer d₁ hattempt ↦ ?_
    obtain ⟨h₁, htemporary₁⟩ := htemporary.write h hattempt
    refine ⟨h₁, ?_⟩
    cases answer with
    | error e => exact htemporary₁
    | ok =>
      refine keeps_attempt h₁ fun answer d₂ hattempt ↦ ?_
      obtain ⟨⟨e, rfl⟩, rfl⟩ | ⟨rfl, hrename⟩ := hattempt.rename
      · exact ⟨h₁, htemporary₁⟩
      · exact ⟨htemporary₁.rename h₁ hworking hentry hfree hrename, trivial⟩
  rw [fillAndReplace]
  change FileProgram.Keeps (Extends d) _ (_ >>= _) d'
  apply Keeps.bind
  refine hinner.mono (fun _ ↦ id) fun result d₁ h₁ hresult ↦ ?_
  cases result with
  | ok => exact keeps_pure h₁ trivial
  | error failure =>
    apply Keeps.bind
    exact keeps_call h₁ fun answer d₂ hattempt ↦
      have h₂ := hresult.remove h₁ hattempt
      ⟨h₂, keeps_pure h₂ trivial⟩

/-- A temporary file is made, filled and put in the place of an entry that was not there. -/
theorem keeps_writeTemporary (h : Extends d d') (hworking : d.HasWorkingDirectory)
    (hentry : d.NamesEntry p last folder) (hfree : d.Unused (folder ++ [last])) (path : Path)
    (contents : String) :
    (do
      let temporary ← attempt .createTemporary path (.createTemporary path)
      fillAndReplace (p.join last) temporary contents :
        ExceptT FileFailure FileProgram Unit).run.Keeps (Extends d) (fun _ _ ↦ True) d' := by
  apply Keeps.bind_ok
  refine keeps_attempt h fun answer d₁ hattempt ↦ ?_
  obtain ⟨⟨e, rfl⟩, rfl⟩ | ⟨q, rfl, hcreate⟩ := hattempt.createTemporary
  · exact ⟨h, trivial⟩
  · obtain ⟨directory, -, rfl, htemporary, rfl⟩ := Disk.createTemporary_eq_ok hcreate
    have hnone := Disk.node?_freshName d' directory
    have hunused := h.unused hnone
    have h₁ := h.insert hunused (.file ByteArray.empty false)
    exact ⟨h₁, keeps_fillAndReplace h₁ ⟨htemporary.holdsFile_insert hnone _ _, hunused⟩ hworking hentry
      hfree contents⟩

/-- Writing a file that was not there leaves everything else as it was. -/
theorem keeps_writeText (h : Extends d d') (hworking : d.HasWorkingDirectory)
    (hentry : d.NamesEntry p last folder) (hfree : d.Unused (folder ++ [last])) (contents : String) :
    (writeText (p.join last) contents).run.Keeps (Extends d) (fun _ _ ↦ True) d' := by
  rw [writeText]
  apply Keeps.bind_ok
  refine (keeps_checkDirectory h _).mono (fun _ ↦ id) ?_
  rintro (failure | ⟨⟩) d₁ h₁ -
  · trivial
  apply Keeps.bind_ok
  apply keeps_lift
  refine (keeps_createDirectories h₁ _).mono (fun _ ↦ id) fun result d₂ h₂ _ ↦ ?_
  dsimp only [Ends]
  cases result with
  | error cause => exact ⟨h₂, trivial⟩
  | ok => exact keeps_writeTemporary h₂ hworking hentry hfree _ contents

end Access

end LayeredConfig
