import LayeredConfig.Proofs.Files.Reading
import LayeredConfig.Proofs.Outcome
import LayeredConfig.Store.Legacy

/-!
# What loading does on a disk

When the main file can be read and has not the old layout, loading changes nothing on the disk
and answers the document of the main file, into which the documents of the other files are merged
as far as there are such files.
-/

namespace LayeredConfig.FileStore

open LayeredConfig.FileProgram
open LayeredConfig.Document (parse)

variable {α : Type} {disk : Disk} {path : Path} {text : String} {d : Document} {s : FileStore}
  {scope : Scope}

/-- What is found at a path when a document is looked for there. -/
inductive Stored (disk : Disk) (path : Path) : Option Document → Prop
  | missing {absent : Path} (h : ((Access.readText path).run.run disk).1 = .error (.notExist absent)) :
      Stored disk path none
  | found {text : String} {d : Document} (h : ((Access.readText path).run.run disk).1 = .ok text)
      (hparse : parse text = .ok d) : Stored disk path (some d)

theorem Stored.unique {found found' : Option Document} (h : Stored disk path found)
    (h' : Stored disk path found') : found' = found := by
  cases h with
  | missing h =>
    cases h' with
    | missing => rfl
    | found h' => cases h.symm.trans h'
  | found h hparse =>
    cases h' with
    | missing h' => cases h.symm.trans h'
    | found h' hparse' =>
      obtain rfl := Except.ok.inj (h.symm.trans h')
      rw [Except.ok.inj (hparse.symm.trans hparse')]

/-- A store into which a scope was merged, if there was anything to merge. -/
def merged (s : FileStore) (scope : Scope) : Option Document → FileStore
  | none => s
  | some part =>
    match part.tree? with
    | none => s
    | some tree =>
      let (d, node) := s.document.addTree tree
      { s with document := d.spliceValue d.root scope.key node }

theorem run_ofFiles (work : ExceptT FileFailure FileProgram α) (disk : Disk) :
    (ofFiles work).run.run disk = ((work.run.run disk).1.mapError .file, (work.run.run disk).2) := by
  change ((work.run >>= fun result ↦ pure (result.mapError .file) :
    FileProgram (Except ConfigError α)).run disk) = _
  rw [run_bind, run_pure]

theorem run_readText_file {result : Except FileFailure String}
    (h : ((Access.readText path).run.run disk).1 = result) :
    (ofFiles (Access.readText path)).run.run disk = (result.mapError .file, disk) := by
  rw [run_ofFiles, h, Access.run_readText]

theorem run_readDocument (h : ((Access.readText path).run.run disk).1 = .ok text)
    (hparse : parse text = .ok d) : (readDocument path).run.run disk = (.ok d, disk) := by
  rw [readDocument, run_bind_ok (run_readText_file h), hparse]
  rfl

theorem run_readDocument_missing {absent : Path}
    (h : ((Access.readText path).run.run disk).1 = .error (.notExist absent)) :
    (readDocument path).run.run disk = (.error (.file (.notExist absent)), disk) := by
  rw [readDocument, run_bind_error (run_readText_file h)]

theorem run_unlessMissing {work : Load α} {a : α} {disk' : Disk}
    (h : work.run.run disk = (.ok a, disk')) :
    (unlessMissing work).run.run disk = (.ok (some a), disk') := by
  change ((work.run >>= _ : FileProgram (Except ConfigError (Option α))).run disk) = _
  rw [run_bind, h]
  rfl

theorem run_unlessMissing_missing {work : Load α} {absent : Path} {disk' : Disk}
    (h : work.run.run disk = (.error (.file (.notExist absent)), disk')) :
    (unlessMissing work).run.run disk = (.ok none, disk') := by
  change ((work.run >>= _ : FileProgram (Except ConfigError (Option α))).run disk) = _
  rw [run_bind, h]
  rfl

theorem run_stored {part : Option Document} (h : Stored disk path part) :
    (unlessMissing (readDocument path)).run.run disk = (.ok part, disk) := by
  cases h with
  | missing h => exact run_unlessMissing_missing (run_readDocument_missing h)
  | found h hparse => exact run_unlessMissing (run_readDocument h hparse)

theorem run_mergeScope {part : Option Document} (h : Stored disk (s.scopeFile scope) part) :
    (s.mergeScope scope).run.run disk = (.ok (s.merged scope part), disk) := by
  rw [mergeScope, run_bind_ok (run_stored h)]
  cases part with
  | none => rfl
  | some part =>
    rw [merged]
    cases htree : part.tree? with
    | none =>
      simp only [htree]
      rfl
    | some tree =>
      simp only [htree]
      rfl

/-- The store of the main document and of the scopes that have documents. -/
def assembled (d : Document) (locations : Locations) (environment : Environment)
    (part : Scope → Option Document) : FileStore :=
  (merged ⟨d, locations, environment⟩ .aliases (part .aliases)).merged .localSettings
    (part .localSettings)

theorem locations_merged (s : FileStore) (scope : Scope) (part : Option Document) :
    (s.merged scope part).locations = s.locations := by
  cases part with
  | none => rfl
  | some part =>
    rw [merged]
    split
    · rfl
    · rfl

theorem environment_merged (s : FileStore) (scope : Scope) (part : Option Document) :
    (s.merged scope part).environment = s.environment := by
  cases part with
  | none => rfl
  | some part =>
    rw [merged]
    split
    · rfl
    · rfl

theorem scopeFile_merged (s : FileStore) (scope other : Scope) (part : Option Document) :
    (s.merged scope part).scopeFile other = s.scopeFile other := by
  cases other with
  | aliases => rw [scopeFile, scopeFile, locations_merged]
  | localSettings => rw [scopeFile, scopeFile, locations_merged]

theorem locations_assembled (d : Document) (locations : Locations) (environment : Environment)
    (part : Scope → Option Document) :
    (assembled d locations environment part).locations = locations := by
  rw [assembled, locations_merged, locations_merged]

theorem environment_assembled (d : Document) (locations : Locations) (environment : Environment)
    (part : Scope → Option Document) :
    (assembled d locations environment part).environment = environment := by
  rw [assembled, environment_merged, environment_merged]

theorem scopeFile_assembled (d : Document) (locations : Locations) (environment : Environment)
    (part : Scope → Option Document) (other : Scope) :
    (assembled d locations environment part).scopeFile other =
      scopeFile ⟨d, locations, environment⟩ other := by
  rw [assembled, scopeFile_merged, scopeFile_merged]

theorem run_loadMain {reader : Yaml.Reader} {locations : Locations} {environment : Environment}
    (h : ((Access.readText locations.mainFile).run.run disk).1 = .ok text)
    (hlegacy : Legacy.isLegacy reader text = false) (hparse : parse text = .ok d) :
    (loadMain reader locations environment).run.run disk = (.ok d, disk) := by
  have hmigrate : (migrateIfLegacy reader locations environment).run.run disk = (.ok none, disk) := by
    rw [migrateIfLegacy, run_bind_ok (run_unlessMissing (run_readText_file h))]
    dsimp only
    rw [hlegacy]
    rfl
  rw [loadMain, run_bind_ok hmigrate, readMain,
    run_bind_ok (run_unlessMissing (run_readDocument h hparse))]
  rfl

/-- The files of the scopes are merged into the main document. -/
theorem run_load_of_loadMain {reader : Yaml.Reader} {locations : Locations}
    {environment : Environment} {part : Scope → Option Document} {disk' : Disk}
    (hmain : (loadMain reader locations environment).run.run disk = (.ok d, disk'))
    (hparts : ∀ scope, Stored disk' (scopeFile ⟨d, locations, environment⟩ scope) (part scope)) :
    (load reader locations environment).run.run disk =
      (.ok (assembled d locations environment part), disk') := by
  rw [load, run_bind_ok hmain, run_bind_ok (run_mergeScope (hparts .aliases))]
  apply run_mergeScope
  rw [scopeFile_merged]
  exact hparts .localSettings

/-- Loading merges what the three files hold. -/
theorem run_load {reader : Yaml.Reader} {locations : Locations} {environment : Environment}
    {part : Scope → Option Document}
    (h : ((Access.readText locations.mainFile).run.run disk).1 = .ok text)
    (hlegacy : Legacy.isLegacy reader text = false) (hparse : parse text = .ok d)
    (hparts : ∀ scope, Stored disk (scopeFile ⟨d, locations, environment⟩ scope) (part scope)) :
    (load reader locations environment).run.run disk =
      (.ok (assembled d locations environment part), disk) :=
  run_load_of_loadMain (run_loadMain h hlegacy hparse) hparts

/-! ## Loads that succeed -/

variable {disk' : Disk} {reader : Yaml.Reader} {locations : Locations} {environment : Environment}

theorem run_readDocument_snd (path : Path) (disk : Disk) :
    ((readDocument path).run.run disk).2 = disk := by
  cases hread : ((Access.readText path).run.run disk).1 with
  | error e => rw [readDocument, run_bind_error (run_readText_file hread)]
  | ok text =>
    rw [readDocument, run_bind_ok (run_readText_file hread)]
    split
    · rfl
    · rfl

theorem readDocument_eq_ok (h : (readDocument path).run.run disk = (.ok d, disk')) :
    disk' = disk ∧ ∃ text, ((Access.readText path).run.run disk).1 = .ok text ∧ parse text = .ok d := by
  refine ⟨by rw [← run_readDocument_snd path disk, h], ?_⟩
  obtain ⟨text, disk₁, hread, h⟩ := run_bind_eq_ok h
  rw [run_ofFiles] at hread
  refine ⟨text, mapError_eq_ok_iff.1 (Prod.mk.inj hread).1, ?_⟩
  split at h
  · rename_i d' hparse
    cases h
    exact hparse
  · cases h

theorem readDocument_eq_missing {absent : Path}
    (h : (readDocument path).run.run disk = (.error (.file (.notExist absent)), disk')) :
    ((Access.readText path).run.run disk).1 = .error (.notExist absent) := by
  cases hread : ((Access.readText path).run.run disk).1 with
  | error e =>
    rw [readDocument, run_bind_error (run_readText_file hread)] at h
    cases h
    rfl
  | ok text =>
    rw [readDocument, run_bind_ok (run_readText_file hread)] at h
    split at h
    · cases h
    · cases h

/-- The text that a document was read from is still there. -/
theorem text_of_readDocument (h : (readDocument path).run.run disk = (.ok d, disk')) :
    ∃ text, ((Access.readText path).run.run disk').1 = .ok text ∧ parse text = .ok d := by
  obtain ⟨rfl, text, htext, hparse⟩ := readDocument_eq_ok h
  exact ⟨text, htext, hparse⟩

/-- Work that may miss its file was done, or its file is missing. -/
theorem unlessMissing_eq_ok {work : Load α} {found : Option α}
    (h : (unlessMissing work).run.run disk = (.ok found, disk')) :
    (∃ a, found = some a ∧ work.run.run disk = (.ok a, disk')) ∨
      ∃ absent, found = none ∧ work.run.run disk = (.error (.file (.notExist absent)), disk') := by
  change ((work.run >>= _ : FileProgram (Except ConfigError (Option α))).run disk) = _ at h
  rw [run_bind] at h
  rcases hwork : work.run.run disk with ⟨result, disk₁⟩
  rw [hwork] at h
  dsimp only at h
  split at h
  · cases h
    exact .inl ⟨_, rfl, rfl⟩
  · cases h
    exact .inr ⟨_, rfl, rfl⟩
  · cases h

theorem stored_of_run {part : Option Document} {disk₁ : Disk}
    (h : (unlessMissing (readDocument path)).run.run disk = (.ok part, disk₁)) :
    Stored disk path part := by
  rcases unlessMissing_eq_ok h with ⟨d, rfl, hread⟩ | ⟨absent, rfl, hread⟩
  · obtain ⟨-, text, htext, hparse⟩ := readDocument_eq_ok hread
    exact .found htext hparse
  · exact .missing (readDocument_eq_missing hread)

theorem mergeScope_eq_ok {s' : FileStore}
    (h : (s.mergeScope scope).run.run disk = (.ok s', disk')) :
    disk' = disk ∧ ∃ part, Stored disk (s.scopeFile scope) part ∧ s' = s.merged scope part := by
  obtain ⟨part, disk₁, hpart, -⟩ := run_bind_eq_ok h
  have hstored := stored_of_run hpart
  rw [run_mergeScope hstored] at h
  cases h
  exact ⟨rfl, part, hstored, rfl⟩

theorem text_of_migrateIfLegacy
    (h : (migrateIfLegacy reader locations environment).run.run disk = (.ok (some d), disk')) :
    ∃ text, ((Access.readText locations.mainFile).run.run disk').1 = .ok text ∧
      parse text = .ok d := by
  obtain ⟨found, disk₁, -, h⟩ := run_bind_eq_ok h
  split at h
  · cases h
  split at h
  · obtain ⟨d', disk₂, hmigrate, h⟩ := run_bind_eq_ok h
    cases h
    obtain ⟨settings, disk₃, -, hmigrate⟩ := run_bind_eq_ok hmigrate
    obtain ⟨converted, disk₄, -, hmigrate⟩ := run_bind_eq_ok hmigrate
    obtain ⟨backup, disk₅, -, hmigrate⟩ := run_bind_eq_ok hmigrate
    obtain ⟨-, disk₆, -, hmigrate⟩ := run_bind_eq_ok hmigrate
    obtain ⟨-, disk₇, -, hmigrate⟩ := run_bind_eq_ok hmigrate
    exact text_of_readDocument hmigrate
  · cases h

/-- The main document is what stands in the main file in the end. -/
theorem text_of_loadMain (h : (loadMain reader locations environment).run.run disk = (.ok d, disk')) :
    ∃ text, ((Access.readText locations.mainFile).run.run disk').1 = .ok text ∧
      parse text = .ok d := by
  obtain ⟨found, disk₁, hfound, h⟩ := run_bind_eq_ok h
  split at h
  · cases h
    exact text_of_migrateIfLegacy hfound
  obtain ⟨main, disk₂, hmain, h⟩ := run_bind_eq_ok h
  split at h
  · cases h
    rcases unlessMissing_eq_ok hmain with ⟨d', hd', hread⟩ | ⟨absent, hnone, -⟩
    · cases hd'
      exact text_of_readDocument hread
    · cases hnone
  · obtain ⟨-, disk₃, -, h⟩ := run_bind_eq_ok h
    exact text_of_readDocument h

/-- What was loaded is what the three files hold in the end. -/
theorem load_eq_ok {s : FileStore}
    (h : (load reader locations environment).run.run disk = (.ok s, disk')) :
    ∃ (text : String) (d : Document) (part : Scope → Option Document),
      ((Access.readText locations.mainFile).run.run disk').1 = .ok text ∧ parse text = .ok d ∧
      (∀ scope, Stored disk' (scopeFile ⟨d, locations, environment⟩ scope) (part scope)) ∧
      s = assembled d locations environment part := by
  obtain ⟨d, disk₁, hmain, h⟩ := run_bind_eq_ok h
  obtain ⟨text, htext, hparse⟩ := text_of_loadMain hmain
  obtain ⟨s₁, disk₂, haliases, h⟩ := run_bind_eq_ok h
  obtain ⟨rfl, aliases, hstored, rfl⟩ := mergeScope_eq_ok haliases
  obtain ⟨rfl, settings, hstored', rfl⟩ := mergeScope_eq_ok h
  rw [scopeFile_merged] at hstored'
  refine ⟨text, d, fun scope ↦ if scope = .aliases then aliases else settings, htext, hparse, ?_, rfl⟩
  intro scope
  cases scope with
  | aliases => exact hstored
  | localSettings => exact hstored'

end LayeredConfig.FileStore
