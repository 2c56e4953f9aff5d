import Mathlib
import LayeredConfig.Proofs.Files.Ancestors

/-!
# Writing is all or nothing

A file is written under a temporary name and then put at the entry of its path. Either that entry
holds the new contents in the end, or nothing has changed but that directories were made, whatever
fails on the way. Something that is in the way of a directory is found before anything is made.
-/

namespace LayeredConfig

namespace Disk

variable {d d' d₁ : Disk} {p path source target : Path} {l directory : Location} {name : String}
  {node : FileNode} {contents old : ByteArray} {executable : Bool} {e : EntryPlace}

/-! ## Disks with more directories -/

/-- Directories were made at free names, and nothing else has changed. -/
structure AddsDirectories (d d' : Disk) : Prop where
  workingDirectory : d'.workingDirectory = d.workingDirectory
  node?_cases : ∀ l, d'.node? l = d.node? l ∨ d.node? l = none ∧ d'.node? l = some .directory

namespace AddsDirectories

theorem refl (d : Disk) : d.AddsDirectories d :=
  ⟨rfl, fun _ ↦ .inl rfl⟩

theorem insert (h : d.AddsDirectories d') (hl : l ≠ []) (hfree : d'.node? l = none) :
    d.AddsDirectories (d'.insert l .directory) := by
  refine ⟨h.workingDirectory, fun l' ↦ ?_⟩
  by_cases heq : l' = l
  · subst heq
    refine .inr ⟨?_, node?_insert_self hl⟩
    rcases h.node?_cases l' with hsame | ⟨hnone, -⟩
    · rw [← hsame, hfree]
    · exact hnone
  · rw [node?_insert_of_ne heq]
    exact h.node?_cases l'

theorem congr (h : d.AddsDirectories d₁) (hworking : d'.workingDirectory = d₁.workingDirectory)
    (hsame : ∀ l, d'.node? l = d₁.node? l) : d.AddsDirectories d' := by
  refine ⟨hworking.trans h.workingDirectory, fun l ↦ ?_⟩
  rw [hsame l]
  exact h.node?_cases l

end AddsDirectories

theorem AddsDirectories.extends (h : d.AddsDirectories d') : Extends d d' := by
  refine ⟨h.workingDirectory, fun l node hnode _ ↦ ?_⟩
  rcases h.node?_cases l with hsame | ⟨hnone, -⟩
  · rw [hsame, hnode]
  · rw [hnone] at hnode
    cases hnode

theorem HasDirectory.insert (h : d.HasDirectory directory) (hfree : d.node? l = none)
    (node : FileNode) : (d.insert l node).HasDirectory directory := by
  intro above habove
  have hnode := h above habove
  rw [node?_insert_of_ne, hnode]
  rintro rfl
  rw [hfree] at hnode
  cases hnode

theorem IsTree.insert (h : d.IsTree) (hparents : d.HasDirectory l.dropLast) (hfree : d.node? l = none)
    (node : FileNode) : (d.insert l node).IsTree := by
  intro l' node' hnode
  by_cases heq : l' = l
  · subst heq
    exact hparents.insert hfree node
  · rw [node?_insert_of_ne heq] at hnode
    exact (h l' node' hnode).insert hfree node

/-! ## Places of entries -/

theorem entryPlace_eq_ok (h : d.entryPlace p = .ok e) :
    checkPath p = .ok () ∧
      d.walk true maxLinks (d.start p) p.names.dropLast = .ok (.found e.directory .directory) ∧
      e.name = p.names.getLast?.getD "." ∧ ¬ e.name.utf8ByteSize > maxNameBytes ∧
      e.directoryOnly = p.hasTrailingSlash := by
  obtain ⟨⟨⟩, hcheck, h⟩ := bind_eq_ok_iff.1 h
  obtain ⟨place, hwalk, h⟩ := bind_eq_ok_iff.1 h
  split at h
  · dsimp only at h
    split at h
    · cases h
    · rename_i hsize
      cases h
      exact ⟨hcheck, hwalk, rfl, hsize, rfl⟩
  · cases h
  · cases h

/-- Files are of no use on the way to an entry. -/
theorem entryPlace_mono (h : d.entryPlace p = .ok e)
    (hworking : d'.workingDirectory = d.workingDirectory)
    (hnodes : ∀ l node, d.node? l = some node → (∀ contents executable,
      node ≠ .file contents executable) → d'.node? l = some node) : d'.entryPlace p = .ok e := by
  obtain ⟨hcheck, hwalk, hname, hsize, honly⟩ := entryPlace_eq_ok h
  obtain ⟨left, harrives⟩ := arrives_of_walk hwalk
  have hstart : d'.start p = d.start p := by
    rw [start, start, hworking]
  rw [entryPlace, hcheck, ok_bind, hstart, (harrives.mono hnodes).walk_eq, ok_bind]
  dsimp only
  rw [← hname, if_neg hsize, ← honly]
  rfl

/-- A file was put at the entry of a path, where no directory stood, and nothing else has changed. -/
structure Puts (d d' : Disk) (path : Path) (e : EntryPlace) (contents : ByteArray) : Prop where
  place : d.entryPlace path = .ok e
  isProper : e.isProper = true
  notDirectoryOnly : e.directoryOnly = false
  notDirectory : d.node? e.location ≠ some .directory
  workingDirectory : d'.workingDirectory = d.workingDirectory
  holds : d'.node? e.location = some (.file contents false)
  frame : ∀ l, l ≠ e.location → d'.node? l = d.node? l

/-- The file is found at the path, unless the way there led over what the file replaced. -/
theorem Puts.read_eq (h : Puts d d' path e contents)
    (hway : e.location ∉ d.trail maxLinks (d.start path) path.names.dropLast) :
    d'.read path = .ok contents := by
  obtain ⟨hcheck, hwalk, hname, hsize, honly⟩ := entryPlace_eq_ok h.place
  have hproper := h.isProper
  rw [EntryPlace.isProper, Bool.and_eq_true, bne_iff_ne, bne_iff_ne] at hproper
  have hnames : path.names = path.names.dropLast ++ [e.name] := by
    rcases List.eq_nil_or_concat path.names with hnil | ⟨above, last, hlast⟩
    · rw [hnil] at hname
      exact absurd hname hproper.1
    · rw [List.concat_eq_append] at hlast
      rw [hlast, List.getLast?_concat] at hname
      rw [hlast, List.dropLast_concat, hname]
      rfl
  have hsteps : path.steps = path.names.dropLast ++ [e.name] := by
    rw [Path.steps, ← honly, h.notDirectoryOnly, ← hnames]
    exact List.append_nil _
  have hstart : d'.start path = d.start path := by
    rw [start, start, h.workingDirectory]
  obtain ⟨left, harrives⟩ := arrives_of_walk hwalk
  have harrives' : d'.Arrives maxLinks (d.start path) path.names.dropLast left e.directory :=
    harrives.congr fun l hl ↦ h.frame l (ne_of_mem_of_not_mem hl hway)
  apply read_of_walk hcheck
  have hholds : d'.node? (e.directory ++ [e.name]) = some (.file contents false) := h.holds
  rw [hstart, hsteps, harrives'.walk_append, walk_name hproper.1 hproper.2, if_neg hsize, hholds]
  rfl

/-! ## Entries that are moved -/

theorem node?_ne_none_of_mem {entry : Location × FileNode} (h : entry ∈ d.nodes) :
    d.node? entry.1 ≠ none := by
  by_cases hroot : entry.1 = []
  · rw [hroot]
    exact Option.some_ne_none _
  · rw [node?_of_ne_nil hroot, ne_eq, List.lookup_eq_none_iff]
    intro hnone
    exact absurd rfl (bne_iff_ne.1 (hnone entry h))

/-- An entry with nothing below it is moved alone. -/
theorem node?_move_of_leaf {source target : Location}
    (hleaf : ∀ entry ∈ d.nodes, source <+: entry.1 → entry.1 = source) (hsource : l ≠ source)
    (htarget : l ≠ target) : (d.move source target).node? l = d.node? l := by
  have hmoved : ∀ entry ∈ d.nodes.filter (·.1 ≠ target),
      moved source target entry.1 = l ↔ entry.1 = l := by
    intro entry hmem
    by_cases hprefix : source <+: entry.1
    · have hentry := hleaf entry (List.mem_filter.1 hmem).1 hprefix
      rw [moved_below hprefix, hentry, List.drop_length, List.append_nil]
      exact iff_of_false (Ne.symm htarget) (Ne.symm hsource)
    · rw [moved_of_not_below hprefix]
  by_cases hroot : l = []
  · rw [node?, node?, if_pos hroot, if_pos hroot]
  · rw [node?_of_ne_nil hroot, node?_of_ne_nil hroot, nodes_move, lookup_map_moved hmoved,
      lookup_filter_ne htarget]

/-- What a renaming of a file does when it succeeds. -/
theorem rename_file_eq_ok {s : EntryPlace} (hs : d.entryPlace source = .ok s)
    (hfile : d.node? s.location = some (.file contents executable))
    (h : d.rename source target = .ok d') :
    ∃ t, d.entryPlace target = .ok t ∧ t.isProper = true ∧ t.directoryOnly = false ∧
      d.node? t.location ≠ some .directory ∧ ¬ t.location <+: s.directory ∧
      (s.location = t.location ∧ d' = d ∨
        s.location ≠ t.location ∧ d' = d.move s.location t.location) := by
  obtain ⟨s', hs', h⟩ := bind_eq_ok_iff.1 h
  obtain rfl := Except.ok.inj (hs.symm.trans hs')
  obtain ⟨t, ht, h⟩ := bind_eq_ok_iff.1 h
  rw [hfile] at h
  split at h
  · cases h
  rename_i hproper
  rw [Bool.or_eq_true, not_or, Bool.not_eq_true', Bool.not_eq_true', Bool.not_eq_false] at hproper
  dsimp only at h
  split at h
  · cases h
  rename_i honly
  split at h
  · cases h
  split at h
  · cases h
  rename_i hbelow
  rw [List.isPrefixOf_iff_prefix] at hbelow
  have honly' : t.directoryOnly = false := by
    cases htarget : t.directoryOnly with
    | false => rfl
    | true => exact absurd (by rw [htarget, Bool.or_true]; rfl) honly
  refine ⟨t, targetPlace_eq_ok ht, by simpa using hproper.2, honly', ?_⟩
  split at h
  · rename_i hsame
    refine ⟨?_, hbelow, .inl ⟨hsame, (Except.ok.inj h).symm⟩⟩
    rw [← hsame, hfile]
    exact fun heq ↦ by cases heq
  rename_i hne
  split at h
  · rename_i hfree
    refine ⟨?_, hbelow, .inr ⟨hne, (Except.ok.inj h).symm⟩⟩
    rw [hfree]
    exact fun heq ↦ by cases heq
  · rename_i other hother
    rw [hother]
    cases other with
    | directory => cases h
    | file => exact ⟨(fun heq ↦ by cases heq), hbelow, .inr ⟨hne, (Except.ok.inj h).symm⟩⟩
    | link => exact ⟨(fun heq ↦ by cases heq), hbelow, .inr ⟨hne, (Except.ok.inj h).symm⟩⟩

/-! ## Temporary files -/

/-- A file stands at a name that was free, and nothing else has changed. -/
structure HasTemporary (d d' : Disk) (p : Path) (name : String) (directory : Location)
    (contents : ByteArray) : Prop where
  workingDirectory : d'.workingDirectory = d.workingDirectory
  entry : d'.NamesEntry p name directory
  wasFree : d.node? (directory ++ [name]) = none
  holds : d'.node? (directory ++ [name]) = some (.file contents false)
  frame : ∀ l, l ≠ directory ++ [name] → d'.node? l = d.node? l

theorem NamesEntry.hasTemporary (h : d.NamesEntry p name directory)
    (hfree : d.node? (directory ++ [name]) = none) (contents : ByteArray) :
    HasTemporary d (d.insert (directory ++ [name]) (.file contents false)) p name directory contents :=
  ⟨rfl, h.insert (fileOrFree_of_free hfree) _, hfree, node?_insert_self (List.concat_ne_nil _ _),
    fun _ hl ↦ node?_insert_of_ne hl⟩

namespace HasTemporary

theorem write (h : HasTemporary d d' p name directory old)
    (hwrite : d'.write (p.join name) contents = .ok d₁) :
    HasTemporary d d₁ p name directory contents := by
  rw [h.entry.write h.holds] at hwrite
  obtain rfl := Except.ok.inj hwrite
  have hfile : d'.FileOrFree (directory ++ [name]) := by
    intro node hmem
    rw [h.holds] at hmem
    exact ⟨old, false, (Option.some.inj hmem).symm⟩
  refine ⟨h.workingDirectory, h.entry.insert hfile _, h.wasFree,
    node?_insert_self (List.concat_ne_nil _ _), fun l hl ↦ ?_⟩
  rw [node?_insert_of_ne hl, h.frame l hl]

/-- Nothing is left of a temporary file that is removed. -/
theorem perform_remove (h : HasTemporary d d' p name directory old) :
    ∃ d₁, d'.perform (.remove (p.join name)) = (.ok (), d₁) ∧
      d₁.workingDirectory = d.workingDirectory ∧ ∀ l, d₁.node? l = d.node? l := by
  have hremove : d'.remove (p.join name) = .ok (d'.erase (directory ++ [name])) := by
    rw [Disk.remove, h.entry.lookup_file h.holds]
    rfl
  refine ⟨d'.erase (directory ++ [name]), ?_, h.workingDirectory, fun l ↦ ?_⟩
  · rw [perform, hremove]
    rfl
  · by_cases hl : l = directory ++ [name]
    · rw [hl, node?_erase_self (List.concat_ne_nil _ _), h.wasFree]
    · rw [node?_erase_of_ne hl, h.frame l hl]

theorem isLeaf (h : HasTemporary d d' p name directory old) (htree : d.IsTree) :
    ∀ entry ∈ d'.nodes, directory ++ [name] <+: entry.1 → entry.1 = directory ++ [name] := by
  intro entry hmem hbelow
  by_contra hne
  apply node?_ne_none_of_mem hmem
  rw [h.frame entry.1 hne, htree.node?_below h.wasFree hbelow]

/-- What there was before a temporary file is there with it. -/
theorem entryPlace (h : HasTemporary d d' p name directory old) (he : d'.entryPlace path = .ok e) :
    d.entryPlace path = .ok e := by
  refine entryPlace_mono he h.workingDirectory.symm fun l node hnode hfile ↦ ?_
  rw [← h.frame l, hnode]
  rintro rfl
  rw [h.holds] at hnode
  exact hfile _ _ (Option.some.inj hnode).symm

/-- A temporary file that is renamed is put at the entry of the other path. -/
theorem rename (h : HasTemporary d d' p name directory contents) (htree : d.IsTree)
    (hrename : d'.rename (p.join name) path = .ok d₁) : ∃ e, Puts d d₁ path e contents := by
  obtain ⟨t, ht, hproper, honly, hnot, hbelow, hcases⟩ :=
    rename_file_eq_ok h.entry.entryPlace h.holds hrename
  have hplace := h.entryPlace ht
  change _ = t.location ∧ _ ∨ directory ++ [name] ≠ t.location ∧ d₁ = d'.move _ _ at hcases
  refine ⟨t, ?_⟩
  rcases hcases with ⟨hsame, rfl⟩ | ⟨hne, rfl⟩
  -- The other path may name the temporary file itself, which then stays where it is.
  · change directory ++ [name] = t.location at hsame
    have hfree := h.wasFree
    have hholds := h.holds
    have hframe := h.frame
    rw [hsame] at hfree hholds hframe
    refine ⟨hplace, hproper, honly, ?_, h.workingDirectory, hholds, hframe⟩
    rw [hfree]
    exact fun heq ↦ by cases heq
  · refine ⟨hplace, hproper, honly, ?_, h.workingDirectory, ?_, fun l hl ↦ ?_⟩
    · rwa [← h.frame _ (Ne.symm hne)]
    · exact (node?_move_target (List.concat_ne_nil _ _) (List.concat_ne_nil _ _) hne).trans h.holds
    · by_cases hsource : l = directory ++ [name]
      · rw [hsource, h.wasFree]
        apply node?_move_source (List.concat_ne_nil _ _)
        intro hprefix
        rcases List.prefix_concat_iff.1 hprefix with heq | hprefix
        · exact hne heq.symm
        · exact hbelow hprefix
      · exact (node?_move_of_leaf (h.isLeaf htree) hsource hl).trans (h.frame l hsource)

end HasTemporary

end Disk

/-! ## What comes of a write -/

theorem FileFailure.of_ne_notDirectory (action : FileAction) (path : Path) (cause : FileError)
    (q : Path) : FileFailure.of action path cause ≠ .notDirectory q := by
  unfold FileFailure.of
  split
  · exact fun heq ↦ by cases heq
  · exact fun heq ↦ by cases heq

namespace Access

open LayeredConfig.FileProgram
open LayeredConfig.Disk (AddsDirectories HasTemporary Puts Obstructs maxLinks)

variable {sure : FileOp → Prop} {d d' d₁ : Disk} {p path q : Path} {directory : Location}
  {name contents : String} {old : ByteArray} {result : Except FileFailure Unit}

/-- While directories are made, nothing else is. -/
theorem keeps_createDirectories_adds (htree : d.IsTree) (hworking : d.HasWorkingDirectory)
    (paths : List Path) :
    (createDirectories paths).Keeps (fun d' ↦ d.AddsDirectories d' ∧ d'.IsTree) (fun _ _ ↦ True) d := by
  refine keeps_createDirectories_of (fun {d₁ d₂ path} h hcreate ↦ ?_) ⟨.refl d, htree⟩ paths
  obtain ⟨hadds, htree₁⟩ := h
  obtain ⟨place, hresolve, hinsert⟩ := bind_eq_ok_iff.1 hcreate
  cases place with
  | found => cases hinsert
  | free directory name =>
    obtain rfl := Except.ok.inj hinsert
    have hwalk := (Disk.resolve_eq_ok hresolve).2
    have hfree := Disk.node?_of_walk_free hwalk
    obtain ⟨before, left, -, harrives, -⟩ := Disk.arrives_of_walk_free hwalk
    have hparents := harrives.hasDirectory ((hadds.extends.hasWorkingDirectory hworking).start path)
    refine ⟨hadds.insert (List.concat_ne_nil _ _) hfree, htree₁.insert ?_ hfree _⟩
    rwa [List.dropLast_concat]

/-- What can come of writing a file. -/
inductive WriteOutcome (sure : FileOp → Prop) (d : Disk) (path : Path) (contents : ByteArray) :
    Except FileFailure Unit → Disk → Prop
  | written {made d' : Disk} {e : Disk.EntryPlace} (hmade : d.AddsDirectories made)
      (hputs : Puts made d' path e contents) : WriteOutcome sure d path contents (.ok ()) d'
  | obstructed {q : Path} (h : d.Obstructs path q) :
      WriteOutcome sure d path contents (.error (.notDirectory q)) d
  /-- Where the removal of files does not fail, there is nothing new but directories. -/
  | failed {failure : FileFailure} {d' : Disk} (hcause : ∀ q, failure ≠ .notDirectory q)
      (hnothing : (∀ p, sure (.remove p)) → d.AddsDirectories d') :
      WriteOutcome sure d path contents (.error failure) d'

/-- Up to the renaming there is the temporary file, whatever it holds. -/
theorem fill_completes (htree : d₁.IsTree) (htemporary : HasTemporary d₁ d' p name directory old)
    {d₂ : Disk}
    (h : (do
      attempt .write path (.write (p.join name) contents.toUTF8)
      attempt .replace path (.rename (p.join name) path) :
        ExceptT FileFailure FileProgram Unit).run.Completes sure d' result d₂) :
    (result = .ok () ∧ ∃ e, Puts d₁ d₂ path e contents.toUTF8) ∨
      ∃ failure, result = .error failure ∧ (∀ q, failure ≠ .notDirectory q) ∧
        ∃ written, HasTemporary d₁ d₂ p name directory written := by
  rcases h.bind_cases with ⟨failure, rfl, hwrite⟩ | ⟨⟨⟩, d₃, hwrite, hrename⟩
  · obtain ⟨answer, hattempt, -, hresult⟩ := attempt_completes hwrite
    obtain ⟨⟨e, rfl⟩, hdisk⟩ | ⟨rfl, -⟩ := hattempt.write_cases
    · refine .inr ⟨failure, rfl, ?_, ?_⟩
      · obtain rfl := Except.error.inj hresult
        exact FileFailure.of_ne_notDirectory _ _ _
      · rcases hdisk with rfl | ⟨written, hwritten⟩
        · exact ⟨old, htemporary⟩
        · exact ⟨written, htemporary.write hwritten⟩
    · cases hresult
  · obtain ⟨answer, hattempt, -, hresult⟩ := attempt_completes hwrite
    obtain ⟨⟨e, rfl⟩, -⟩ | ⟨-, hwritten⟩ := hattempt.write_cases
    · cases hresult
    have hfull := htemporary.write hwritten
    obtain ⟨answer, hattempt, -, rfl⟩ := attempt_completes hrename
    obtain ⟨⟨e, rfl⟩, rfl⟩ | ⟨rfl, hrenamed⟩ := hattempt.rename
    · exact .inr ⟨_, rfl, FileFailure.of_ne_notDirectory _ _ _, _, hfull⟩
    · exact .inl ⟨rfl, hfull.rename htree hrenamed⟩

/-- A temporary file is filled and put at the entry of a path, or it is gone. -/
theorem fillAndReplace_completes (htree : d₁.IsTree) (hmade : d.AddsDirectories d₁)
    (htemporary : HasTemporary d₁ d' p name directory old) {d₂ : Disk}
    (h : (fillAndReplace path (p.join name) contents).run.Completes sure d' result d₂) :
    WriteOutcome sure d path contents.toUTF8 result d₂ := by
  rw [fillAndReplace] at h
  obtain ⟨filled, d₃, hfill, hrest⟩ := completes_bind.1 h
  obtain ⟨rfl, e, hputs⟩ | ⟨failure, rfl, hcause, written, hleft⟩ := fill_completes htree htemporary hfill
  · obtain ⟨rfl, rfl⟩ := completes_pure.1 hrest
    exact .written hmade hputs
  · obtain ⟨answer, d₄, hremove, hpure⟩ := completes_bind.1 hrest
    obtain ⟨rfl, rfl⟩ := completes_pure.1 hpure
    refine .failed hcause fun hsure ↦ ?_
    obtain ⟨d₅, hperform, hworking, hsame⟩ := hleft.perform_remove
    have hremoved := (completes_call.1 hremove).2 (hsure _)
    rw [hperform] at hremoved
    obtain ⟨-, rfl⟩ := Prod.mk.inj hremoved
    exact hmade.congr hworking hsame

/-- Every run of a write that is not cut off has one of these outcomes. -/
theorem writeText_completes (htree : d.IsTree) (hworking : d.HasWorkingDirectory)
    (h : (writeText path contents).run.Completes sure d result d') :
    WriteOutcome sure d path contents.toUTF8 result d' := by
  rw [writeText] at h
  rcases h.bind_cases with ⟨failure, rfl, hcheck⟩ | ⟨⟨⟩, d₁, hcheck, hbehind⟩
  · obtain ⟨-, rfl, hfailure⟩ := (keeps_checkDirectory (I := fun _ ↦ True) trivial _).completes hcheck
    obtain ⟨q, hq, rfl, hkind⟩ := hfailure failure rfl
    exact .obstructed ⟨hq, hkind⟩
  obtain ⟨-, rfl, -⟩ := (keeps_checkDirectory (I := fun _ ↦ True) trivial _).completes hcheck
  rcases hbehind.bind_cases with ⟨failure, rfl, hmake⟩ | ⟨made, d₂, hmake, hrest⟩
  · obtain ⟨a, ha, -⟩ := hmake.of_lift
    cases ha
  obtain ⟨a, ha, hmake⟩ := hmake.of_lift
  obtain rfl := Except.ok.inj ha
  obtain ⟨⟨hadds, htree₂⟩, -⟩ := (keeps_createDirectories_adds htree hworking _).completes hmake
  cases made with
  | error cause =>
    obtain ⟨rfl, rfl⟩ := completes_pure.1 hrest
    exact .failed (FileFailure.of_ne_notDirectory _ _ _) fun _ ↦ hadds
  | ok =>
    rcases hrest.bind_cases with ⟨failure, rfl, htemporary⟩ | ⟨q, d₃, htemporary, hfill⟩
    · obtain ⟨answer, hattempt, -, hresult⟩ := attempt_completes htemporary
      obtain ⟨⟨e, rfl⟩, rfl⟩ | ⟨q, rfl, -⟩ := hattempt.createTemporary
      · obtain rfl := Except.error.inj hresult
        exact .failed (FileFailure.of_ne_notDirectory _ _ _) fun _ ↦ hadds
      · cases hresult
    · obtain ⟨answer, hattempt, -, hresult⟩ := attempt_completes htemporary
      obtain ⟨⟨e, rfl⟩, -⟩ | ⟨q', rfl, hcreate⟩ := hattempt.createTemporary
      · cases hresult
      obtain rfl := Except.ok.inj hresult
      obtain ⟨directory, -, rfl, hentry, rfl⟩ := Disk.createTemporary_eq_ok hcreate
      exact fillAndReplace_completes htree₂ hadds
        (hentry.hasTemporary (Disk.node?_freshName _ _) ByteArray.empty) hfill

/-- What is in the way is named before anything is made. -/
theorem writeText_obstructed (hobstructs : d.Obstructs path q)
    (h : (writeText path contents).run.Completes FileOp.IsLook d result d') :
    result = .error (.notDirectory q) ∧ d' = d := by
  obtain ⟨hq, kind, hkind, hne⟩ := hobstructs
  rw [writeText] at h
  rcases h.bind_cases with ⟨failure, rfl, hcheck⟩ | ⟨⟨⟩, d₁, hcheck, -⟩
  · obtain ⟨hresult, rfl⟩ := checkDirectories_completes_of_mem hq hkind hne hcheck
    obtain rfl := Except.error.inj hresult
    exact ⟨rfl, rfl⟩
  · obtain ⟨hresult, -⟩ := checkDirectories_completes_of_mem hq hkind hne hcheck
    cases hresult

/-- A write that succeeds puts the contents at the entry of the path and changes no other file, and
what it wrote is found at the path unless the way there led over what the file replaced. A write that
fails changes no file and leaves none over, when the removal of its temporary file does not fail too.
It fails for something that is in the way of a directory exactly when something is, and then has made
nothing. -/
theorem writeText_all_or_nothing (htree : d.IsTree) (hworking : d.HasWorkingDirectory) (path : Path)
    (contents : String) :
    (∀ sure d', (writeText path contents).run.Completes sure d (.ok ()) d' →
      ∃ made e, d.AddsDirectories made ∧ Puts made d' path e contents.toUTF8 ∧
        (e.location ∉ made.trail maxLinks (made.start path) path.names.dropLast →
          d'.read path = .ok contents.toUTF8)) ∧
    (∀ failure d', (writeText path contents).run.Completes FileOp.IsRemoval d (.error failure) d' →
      d.AddsDirectories d') ∧
    (∀ sure q d', (writeText path contents).run.Completes sure d (.error (.notDirectory q)) d' →
      d.Obstructs path q ∧ d' = d) ∧
    ∀ q result d', d.Obstructs path q →
      (writeText path contents).run.Completes FileOp.IsLook d result d' →
        result = .error (.notDirectory q) ∧ d' = d := by
  refine ⟨fun sure d' h ↦ ?_, fun failure d' h ↦ ?_, fun sure q d' h ↦ ?_,
    fun q result d' hobstructs h ↦ writeText_obstructed hobstructs h⟩
  · cases writeText_completes htree hworking h with
    | written hmade hputs => exact ⟨_, _, hmade, hputs, hputs.read_eq⟩
  · cases writeText_completes htree hworking h with
    | obstructed => exact .refl d
    | failed _ hnothing => exact hnothing fun _ ↦ trivial
  · cases writeText_completes htree hworking h with
    | obstructed hobstructs => exact ⟨hobstructs, rfl⟩
    | failed hcause _ => exact absurd rfl (hcause q)

/-- A directory, a link to it and a file. -/
def linkedDisk : Disk where
  nodes := [(["d"], .directory), (["l"], .link ⟨"d"⟩), (["f"], .file "y\n".toUTF8 false)]

theorem isTree_linkedDisk : linkedDisk.IsTree := by
  apply Disk.isTree_of_nodes
  have hroot : ∀ entry ∈ linkedDisk.nodes, entry.1.dropLast = [] :=
    List.forall_mem_cons.2 ⟨rfl, List.forall_mem_cons.2 ⟨rfl, List.forall_mem_singleton.2 rfl⟩⟩
  intro entry hmem
  rw [hroot entry hmem]
  exact .root

theorem hasWorkingDirectory_linkedDisk : linkedDisk.HasWorkingDirectory :=
  Disk.HasDirectory.root

/-- A link is replaced, also when the way to its own directory leads over it. -/
theorem run_writeText_linkedDisk (contents : String) :
    (writeText ⟨"l/../l"⟩ contents).run.run linkedDisk =
      (.ok (), linkedDisk.replace [] "l" contents.toUTF8) := by
  have hwalk : linkedDisk.walk true maxLinks [] ["l", ".."] = .ok (.found [] .directory) := by cbv
  obtain ⟨left, harrives⟩ := Disk.arrives_of_walk hwalk
  have hnames : (⟨"l/.."⟩ : Path).names = ["l", ".."] := by cbv
  rw [← hnames] at harrives
  have hcheck : Disk.checkPath ⟨"l/.."⟩ = .ok () := by cbv
  have hentry : linkedDisk.NamesEntry ⟨"l/.."⟩ "l" [] :=
    ⟨⟨by decide, by decide, by simp⟩, hcheck, by decide, left, harrives⟩
  have hfresh : linkedDisk.freshName [] = Disk.temporaryName 0 := by cbv
  have hdirectory : (Path.join ⟨"l/.."⟩ "l").directory = ⟨"l/.."⟩ := by cbv
  have htemporary : linkedDisk.NamesEntry (Path.join ⟨"l/.."⟩ "l").directory (Disk.temporaryName 0) [] := by
    rw [hdirectory]
    exact ⟨Disk.isName_temporaryName 0, hcheck, by decide, left, harrives⟩
  apply run_writeText_entry hentry (fun heq ↦ by cases heq)
  · rw [hfresh]
    decide
  · rw [hfresh]
    exact htemporary

/-- Nothing is written below a file, and a link is replaced by one. -/
theorem writeText_all_or_nothing_linkedDisk :
    linkedDisk.IsTree ∧ linkedDisk.HasWorkingDirectory ∧ linkedDisk.Obstructs ⟨"f/n/x"⟩ ⟨"f"⟩ ∧
      (writeText ⟨"f/n/x"⟩ "x\n").run.run linkedDisk = (.error (.notDirectory ⟨"f"⟩), linkedDisk) ∧
      ∃ d', (writeText ⟨"l/../l"⟩ "x\n").run.run linkedDisk = (.ok (), d') ∧
        ∃ made e, linkedDisk.AddsDirectories made ∧ Puts made d' ⟨"l/../l"⟩ e "x\n".toUTF8 := by
  have hobstructs : linkedDisk.Obstructs ⟨"f/n/x"⟩ ⟨"f"⟩ :=
    ⟨by decide +kernel, .file false, by cbv, fun heq ↦ by cases heq⟩
  refine ⟨isTree_linkedDisk, hasWorkingDirectory_linkedDisk, hobstructs, ?_, _,
    run_writeText_linkedDisk "x\n", ?_⟩
  · obtain ⟨-, -, -, hnamed⟩ := writeText_all_or_nothing isTree_linkedDisk
      hasWorkingDirectory_linkedDisk ⟨"f/n/x"⟩ "x\n"
    obtain ⟨hresult, hdisk⟩ := hnamed _ _ _ hobstructs (completes_run _ _ _)
    exact Prod.ext hresult hdisk
  · have hcompletes := completes_run FileOp.IsRemoval (writeText ⟨"l/../l"⟩ "x\n").run linkedDisk
    rw [run_writeText_linkedDisk] at hcompletes
    obtain ⟨hwritten, -⟩ := writeText_all_or_nothing isTree_linkedDisk
      hasWorkingDirectory_linkedDisk ⟨"l/../l"⟩ "x\n"
    obtain ⟨made, e, hmade, hputs, -⟩ := hwritten _ _ hcompletes
    exact ⟨made, e, hmade, hputs⟩

/-- A file that replaces a link on the way to its own directory is not found at its path. -/
theorem written_path_not_found :
    linkedDisk.IsTree ∧ linkedDisk.HasWorkingDirectory ∧
      ∃ d', (writeText ⟨"l/../l"⟩ "x\n").run.run linkedDisk = (.ok (), d') ∧
        d'.read ⟨"l/../l"⟩ = .error .notDirectory :=
  ⟨isTree_linkedDisk, hasWorkingDirectory_linkedDisk, _, run_writeText_linkedDisk "x\n", by cbv⟩

end Access

end LayeredConfig
