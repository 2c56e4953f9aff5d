import LayeredConfig.Proofs.Files.Replacing

/-!
# What is read behind a replacement

The path of a replaced file holds the new contents. What is read for another path is what was read
before, unless the entry of the replaced file was looked at on the way.
-/

namespace LayeredConfig

namespace Disk

/-- All that is looked at when the file of a path is read, on the way to the file and to the
directories above it. -/
def touched (d : Disk) (path : Path) : List Location :=
  (path :: path.directory.ancestors).flatMap fun p ↦ d.trail maxLinks (d.start p) p.steps

/-- The working directory hangs in a tree of directories. A disk keeps its entries by their locations
alone, so this is said apart; it holds wherever a process runs. -/
def HasWorkingDirectory (d : Disk) : Prop :=
  d.HasDirectory d.workingDirectory

variable {d d' : Disk} {entry directory goal : Location} {contents : ByteArray} {path : Path}
  {name : String} {links left : Nat} {steps : List String}

theorem HasWorkingDirectory.start (h : d.HasWorkingDirectory) (path : Path) :
    d.HasDirectory (d.start path) := by
  rw [Disk.start]
  split
  · exact .root
  · exact h

/-- Whatever is looked at stands in a directory. -/
theorem hasDirectory_of_mem_touched (hworking : d.HasWorkingDirectory) {l : Location}
    (h : l ∈ d.touched path) : d.HasDirectory l.dropLast := by
  obtain ⟨q, -, hl⟩ := List.mem_flatMap.1 h
  exact hasDirectory_of_mem_trail (hworking.start q) hl

namespace Replaced

theorem start_eq (h : Replaced d d' entry contents) (path : Path) : d'.start path = d.start path := by
  rw [Disk.start, Disk.start, h.workingDirectory]

theorem walk_eq (h : Replaced d d' entry contents) (hdirectory : d.HasDirectory directory)
    (hentry : entry ∉ d.trail links directory steps) :
    d'.walk true links directory steps = d.walk true links directory steps := by
  apply walk_congr
  intro l hl
  exact h.frame l (ne_of_mem_of_not_mem hl hentry) (hasDirectory_of_mem_trail hdirectory hl)

end Replaced

/-- What can be replaced is not on the way to a directory. -/
theorem Arrives.not_mem_trail (h : d.Arrives links directory steps left goal) {l : Location}
    (hreplaceable : d.Replaceable l name) : l ++ [name] ∉ d.trail links directory steps := by
  intro hmem
  obtain ⟨l', last, links', left', goal', heq, harrives⟩ := h.of_mem_trail hmem
  obtain ⟨rfl, hlast⟩ := List.append_inj' heq rfl
  obtain rfl := (List.cons.inj hlast).1
  exact hreplaceable.isLeaf _ _ _ harrives

theorem Replaced.arrives {l : Location} (h : Replaced d d' (l ++ [name]) contents)
    (hdirectory : d.HasDirectory directory) (hreplaceable : d.Replaceable l name)
    (harrives : d.Arrives links directory steps left goal) :
    ∃ left, d'.Arrives links directory steps left goal := by
  apply arrives_of_walk
  rw [h.walk_eq hdirectory (harrives.not_mem_trail hreplaceable), harrives.walk_eq]

theorem Replaced.namesEntry {l : Location} {p : Path} (h : Replaced d d' (l ++ [name]) contents)
    (hworking : d.HasWorkingDirectory) (hreplaceable : d.Replaceable l name)
    (hentry : d.NamesEntry p name l) : d'.NamesEntry p name l := by
  obtain ⟨left, harrives⟩ := hentry.arrives
  obtain ⟨left', harrives'⟩ := h.arrives (hworking.start _) hreplaceable harrives
  rw [← h.start_eq] at harrives'
  exact ⟨hentry.isName, hentry.check, hentry.size, left', harrives'⟩

end Disk

namespace Access

open LayeredConfig.FileProgram
open LayeredConfig.Disk (NamesEntry Replaceable Replaced HasWorkingDirectory touched)

variable {d d' : Disk} {entry directory : Location} {p path : Path} {name contents : String}
  {bytes : ByteArray}

/-! ## Other files -/

theorem checkDirectories_congr {paths : List Path}
    (h : ∀ path ∈ paths, d'.lookup true path = d.lookup true path) :
    ((checkDirectories paths).run d').1 = ((checkDirectories paths).run d).1 := by
  induction paths with
  | nil => rfl
  | cons path paths ih =>
    obtain ⟨hpath, hrest⟩ := List.forall_mem_cons.1 h
    have hkind : d'.kind true path = d.kind true path := by
      rw [Disk.kind, Disk.kind, hpath]
    rw [checkDirectories, run_bind, run_bind, run_call, run_call, Disk.perform, Disk.perform, hkind]
    dsimp only
    split
    · rfl
    · rfl
    · exact ih hrest

theorem lookup_congr (hworking : d'.workingDirectory = d.workingDirectory)
    (hsame : ∀ l ∈ d.touched path, d'.node? l = d.node? l) :
    ∀ q ∈ path :: path.directory.ancestors, d'.lookup true q = d.lookup true q := by
  intro q hq
  have hstart : d'.start q = d.start q := by
    rw [Disk.start, Disk.start, hworking]
  rw [Disk.lookup, Disk.lookup, Disk.resolve, Disk.resolve, hstart, Disk.walk_congr]
  exact fun l hl ↦ hsame l (List.mem_flatMap.2 ⟨q, hq, hl⟩)

/-- What is read depends on what is looked at. -/
theorem read_congr (hworking : d'.workingDirectory = d.workingDirectory)
    (hsame : ∀ l ∈ d.touched path, d'.node? l = d.node? l) : d'.read path = d.read path := by
  rw [Disk.read, Disk.read, lookup_congr hworking hsame path List.mem_cons_self]

theorem readText_congr (hworking : d'.workingDirectory = d.workingDirectory)
    (hsame : ∀ l ∈ d.touched path, d'.node? l = d.node? l) :
    ((readText path).run.run d').1 = ((readText path).run.run d).1 := by
  have hcheck : ((checkDirectory path.directory).run.run d').1 =
      ((checkDirectory path.directory).run.run d).1 :=
    checkDirectories_congr fun q hq ↦ lookup_congr hworking hsame q (List.mem_cons_of_mem _ hq)
  rw [run_readText_fst, run_readText_fst, hcheck, read_congr hworking hsame]

/-- Whatever is read without a look at the replaced entry is what was read before. -/
theorem readText_untouched (h : Replaced d d' entry bytes) (hworking : d.HasWorkingDirectory)
    (hentry : entry ∉ d.touched path) :
    ((readText path).run.run d').1 = ((readText path).run.run d).1 :=
  readText_congr h.workingDirectory fun l hl ↦
    h.frame l (ne_of_mem_of_not_mem hl hentry) (Disk.hasDirectory_of_mem_touched hworking hl)

/-! ## The replaced file -/

theorem fromUTF8?_toUTF8 (text : String) : String.fromUTF8? text.toUTF8 = some text :=
  dif_pos text.isValidUTF8

/-- The path of a replaced file holds the text that was written. -/
theorem readText_replaced (hworking : d.HasWorkingDirectory)
    (hentry : d.NamesEntry p name directory) (hreplaceable : d.Replaceable directory name)
    (h : Replaced d d' (directory ++ [name]) contents.toUTF8) :
    ((readText (p.join name)).run.run d').1 = .ok contents := by
  have hentry' := h.namesEntry hworking hreplaceable hentry
  obtain ⟨left, hdirectory⟩ := arrives_directory hentry'
  have hread : d'.read (p.join name) = .ok contents.toUTF8 := by
    rw [Disk.read, hentry'.lookup_file h.holds]
    rfl
  have hcheck := Path.checkPath_directory hentry.isName hentry.check
  exact run_readText_of_read (run_checkDirectory_of_arrives hcheck hdirectory) hread
    (fromUTF8?_toUTF8 contents)

end Access

end LayeredConfig
