import LayeredConfig.Proofs.Files.Additions
import LayeredConfig.Proofs.Store.Conversion

/-!
# Loading with faults

An old main file is renamed before the new one is written, and only to a name that was free. So its
contents can be read under one of the two names wherever loading ends or fails, and nothing has
happened to any file when the carrying over is reported as failed.
-/

namespace LayeredConfig

open FileProgram
open Disk (Extends Renamed Unused HasWorkingDirectory NamesEntry)

variable {α : Type} {d d' d₁ : Disk} {locations : Locations} {bytes : ByteArray}
  {I : Disk → Prop}

theorem Locations.isName_backupFile : Path.IsName "config.yml.bak" where
  nonempty := by decide
  noSlash := by decide
  noDotLast := by simp

theorem Locations.backupFile_eq (locations : Locations) :
    locations.backupFile = locations.configDirectory.join "config.yml.bak" :=
  congrArg Path.mk
    (Path.text_join_append FileStore.isName_mainFile locations.configDirectory ".bak")

/-! ## The renamed main file -/

/-- The disk behind the renaming of the main file. -/
structure BackedUp (d : Disk) (locations : Locations) (bytes : ByteArray) (d₁ : Disk) : Prop where
  /-- No older backup was there. -/
  wasFree : ∀ kind, d.kind false locations.backupFile ≠ .ok kind
  hasWorkingDirectory : d₁.HasWorkingDirectory
  read : d₁.read locations.backupFile = .ok bytes
  main : ∃ directory, d₁.NamesEntry locations.configDirectory "config.yml" directory ∧
    d₁.node? (directory ++ ["config.yml"]) = none

theorem backedUp_of_rename (hworking : d.HasWorkingDirectory)
    (hread : d.read locations.mainFile = .ok bytes)
    (hfree : ∀ kind, d.kind false locations.backupFile ≠ .ok kind)
    (h : d.rename locations.mainFile locations.backupFile = .ok d₁) :
    BackedUp d locations bytes d₁ := by
  obtain ⟨goal, executable, hlookup⟩ := Disk.read_eq_ok hread
  obtain ⟨directory, hentry, hleads⟩ := Disk.namesEntry_of_lookup FileStore.isName_mainFile hlookup
  have hreplaceable := hleads.replaceable FileStore.isName_mainFile
  rw [locations.backupFile_eq] at h hfree
  obtain ⟨hrenamed, hbackup⟩ := Disk.renamed_of_rename hentry Locations.isName_backupFile (by decide)
    hreplaceable.notDirectory hfree h
  refine ⟨?_, hrenamed.hasWorkingDirectory hreplaceable.notDirectory hworking, ?_, directory,
    hrenamed.namesEntry hworking hreplaceable hentry, hrenamed.source⟩
  · rw [locations.backupFile_eq]
    exact hfree
  · rw [locations.backupFile_eq]
    exact hrenamed.read_eq hworking hentry hbackup hread

/-- Nothing has happened, or the main file was renamed and something was added since. -/
def Kept (d : Disk) (locations : Locations) (bytes : ByteArray) (d' : Disk) : Prop :=
  d' = d ∨ ∃ d₁, BackedUp d locations bytes d₁ ∧ Extends d₁ d'

theorem Kept.unchanged (d : Disk) (locations : Locations) (bytes : ByteArray) :
    Kept d locations bytes d :=
  .inl rfl

theorem Kept.read (h : Kept d locations bytes d') (hread : d.read locations.mainFile = .ok bytes) :
    d'.read locations.mainFile = .ok bytes ∨ d'.read locations.backupFile = .ok bytes := by
  rcases h with rfl | ⟨d₁, hbacked, hextends⟩
  · exact .inl hread
  · exact .inr (hextends.read_eq hbacked.hasWorkingDirectory hbacked.read)

theorem Kept.of_backup (h : Kept d locations bytes d') {kind : FileKind}
    (hkind : d.kind false locations.backupFile = .ok kind) : d' = d := by
  rcases h with rfl | ⟨d₁, hbacked, -⟩
  · rfl
  · exact absurd hkind (hbacked.wasFree kind)

theorem keeps_backUp (hworking : d.HasWorkingDirectory)
    (hread : d.read locations.mainFile = .ok bytes) :
    (Access.backUp locations.mainFile locations.backupFile).run.Keeps (Kept d locations bytes)
      (Ends (fun _ d₁ ↦ BackedUp d locations bytes d₁) fun _ d' ↦ d' = d) d := by
  have hkept := Kept.unchanged d locations bytes
  rw [Access.backUp]
  apply Keeps.bind_ok
  apply keeps_lift
  refine keeps_call hkept fun answer d' hattempt ↦ ?_
  obtain ⟨rfl, rfl⟩ := hattempt.entryKind
  refine ⟨hkept, ?_⟩
  cases hkind : d'.kind false locations.backupFile with
  | ok kind => exact ⟨hkept, rfl⟩
  | error cause =>
    have hfree : ∀ kind, d'.kind false locations.backupFile ≠ .ok kind := by
      rw [hkind]
      exact fun _ h ↦ by cases h
    have hattempted : (Access.attempt .backUp locations.mainFile
        (.rename locations.mainFile locations.backupFile)).run.Keeps (Kept d' locations bytes)
        (Ends (fun _ d₁ ↦ BackedUp d' locations bytes d₁) fun _ d₁ ↦ d₁ = d') d' := by
      refine Access.keeps_attempt hkept fun answer d₁ hattempt ↦ ?_
      obtain ⟨⟨e, rfl⟩, rfl⟩ | ⟨rfl, hrename⟩ := hattempt.rename
      · exact ⟨hkept, rfl⟩
      · have hbacked := backedUp_of_rename hworking hread hfree hrename
        exact ⟨.inr ⟨d₁, hbacked, .refl d₁⟩, hbacked⟩
    cases cause with
    | nulInName => exact ⟨hkept, rfl⟩
    | _ => exact hattempted

/-! ## Loading -/

namespace FileStore

/-- The carrying over of an old main file failed. -/
def FailsMigration (result : Except ConfigError α) : Prop :=
  ∃ path fault, result = .error (.migration path fault)

theorem FailsMigration.of_error {β : Type} {e : ConfigError}
    (h : FailsMigration (.error e : Except ConfigError α)) :
    FailsMigration (.error e : Except ConfigError β) := by
  obtain ⟨path, fault, heq⟩ := h
  exact ⟨path, fault, congrArg _ (Except.error.inj heq)⟩

theorem keeps_ofFiles {work : ExceptT FileFailure FileProgram α}
    {Q : Except ConfigError α → Disk → Prop}
    (h : work.run.Keeps I (fun result d ↦ Q (result.mapError .file) d) d) :
    (ofFiles work).run.Keeps I Q d := by
  change (work.run >>= _ : FileProgram _).Keeps I Q d
  exact Keeps.bind (h.mono (fun _ ↦ id) fun _ _ hI hQ ↦ keeps_pure hI hQ)

/-- File work as such does not fail to carry a file over. -/
theorem not_failsMigration_mapError (result : Except FileFailure α) :
    ¬ FailsMigration (result.mapError .file) := by
  rintro ⟨path, fault, h⟩
  cases result <;> cases h

theorem keeps_readDocument (hI : I d) (path : Path) :
    (readDocument path).run.Keeps I (fun result d' ↦ d' = d ∧ ¬ FailsMigration result ∧
      ∀ bytes, d.read path = .ok bytes → ∀ q, result ≠ .error (.file (.notExist q))) d := by
  rw [readDocument]
  apply Keeps.bind_ok
  apply keeps_ofFiles
  refine (Access.keeps_readText hI path).mono (fun _ ↦ id) ?_
  rintro (failure | text) d' hI' ⟨rfl, hfound⟩
  · have hfails := not_failsMigration_mapError (.error failure : Except FileFailure Document)
    refine ⟨rfl, hfails, fun bytes hread q h ↦ ?_⟩
    obtain rfl := ConfigError.file.inj (Except.error.inj h)
    exact hfound bytes hread q rfl
  · change FileProgram.Keeps I _ (ExceptT.run _) _
    split
    · exact keeps_pure hI' ⟨rfl, (by rintro ⟨_, _, ⟨⟩⟩), fun _ _ _ h ↦ by cases h⟩
    · exact keeps_pure hI' ⟨rfl, (by rintro ⟨_, _, ⟨⟩⟩), fun _ _ _ h ↦ by cases h⟩

theorem keeps_unlessMissing {work : Load α} {Q : Except ConfigError (Option α) → Disk → Prop}
    {Q₀ : Except ConfigError α → Disk → Prop} (h : work.run.Keeps I Q₀ d)
    (hok : ∀ a d, Q₀ (.ok a) d → Q (.ok (some a)) d)
    (hmissing : ∀ q d, Q₀ (.error (.file (.notExist q))) d → Q (.ok none) d)
    (hfailed : ∀ e d, Q₀ (.error e) d → Q (.error e) d) : (unlessMissing work).run.Keeps I Q d := by
  change (work.run >>= _ : FileProgram _).Keeps I Q d
  apply Keeps.bind
  refine h.mono (fun _ ↦ id) fun result d' hI hQ ↦ ?_
  split
  · exact keeps_pure hI (hok _ _ hQ)
  · exact keeps_pure hI (hmissing _ _ hQ)
  · exact keeps_pure hI (hfailed _ _ hQ)

theorem keeps_mergeScope (hI : I d) (s : FileStore) (scope : Scope) :
    (mergeScope s scope).run.Keeps I (fun result _ ↦ ¬ FailsMigration result) d := by
  rw [mergeScope]
  apply Keeps.bind_ok
  refine keeps_unlessMissing (keeps_readDocument hI (s.scopeFile scope)) ?_ ?_ ?_
  · rintro part d' ⟨rfl, -, -⟩
    dsimp only [Ends]
    split
    · exact ⟨hI, by rintro ⟨_, _, ⟨⟩⟩⟩
    · exact ⟨hI, by rintro ⟨_, _, ⟨⟩⟩⟩
  · rintro q d' ⟨rfl, -, -⟩
    exact ⟨hI, by rintro ⟨_, _, ⟨⟩⟩⟩
  · rintro e d' ⟨-, hfails, -⟩ h
    exact hfails h.of_error

variable {reader : Yaml.Reader} {text : String} {environment : Environment}

/-- A part of the carrying over that only computes. -/
theorem keeps_migration (hI : I d) (path : Path) (result : Except MigrationFault α) :
    (migration path result).run.Keeps I
      (Ends (fun a d' ↦ result = .ok a ∧ d' = d) fun _ d' ↦ d' = d) d := by
  cases result with
  | ok a => exact keeps_pure hI ⟨rfl, rfl⟩
  | error fault => exact keeps_pure hI rfl

theorem keeps_write {s : FileStore} (hbacked : BackedUp d locations bytes d₁) (h : Extends d₁ d')
    (hlocations : s.locations = locations) :
    s.write.run.Keeps (Extends d₁) (fun result _ ↦ ¬ FailsMigration result) d' := by
  obtain ⟨directory, hentry, hfree⟩ := hbacked.main
  rw [write, hlocations]
  apply keeps_ofFiles
  refine (Access.keeps_writeText h hbacked.hasWorkingDirectory hentry (fun _ ↦ hfree) _).mono
    (fun _ ↦ id) fun result _ _ _ ↦ not_failsMigration_mapError result

theorem keeps_migrate (hworking : d.HasWorkingDirectory)
    (hread : d.read locations.mainFile = .ok bytes) :
    (migrate reader text locations environment).run.Keeps (Kept d locations bytes)
      (fun result d' ↦ FailsMigration result → d' = d) d := by
  have hkept := Kept.unchanged d locations bytes
  rw [migrate]
  apply Keeps.bind_ok
  refine (keeps_migration hkept _ _).mono (fun _ ↦ id) ?_
  rintro (e | settings) d' - hd'
  · exact fun _ ↦ hd'
  obtain ⟨-, rfl⟩ := hd'
  apply Keeps.bind_ok
  refine (keeps_migration hkept _ _).mono (fun _ ↦ id) ?_
  rintro (e | s) d'' - hd''
  · exact fun _ ↦ hd''
  obtain ⟨hs, rfl⟩ := hd''
  apply Keeps.bind_ok
  apply keeps_lift
  refine (keeps_backUp hworking hread).mono (fun _ ↦ id) ?_
  rintro (failure | ⟨⟩) d₁ hkept₁ hbacked
  · exact ⟨hkept₁, fun _ ↦ hbacked⟩
  apply Keeps.bind_ok
  refine keeps_pure hkept₁ ?_
  have hfile : s.locations = locations := Legacy.locations_store (mapError_eq_ok_iff.1 hs)
  apply Keeps.bind_ok
  refine (keeps_write hbacked (.refl d₁) hfile).mono (fun _ h ↦ .inr ⟨d₁, hbacked, h⟩) ?_
  rintro (e | ⟨⟩) d₂ h₂ hfails
  · exact fun h ↦ absurd h.of_error hfails
  have hkept₂ : Kept d'' locations bytes d₂ := .inr ⟨d₁, hbacked, h₂⟩
  refine (keeps_readDocument hkept₂ _).mono (fun _ ↦ id) ?_
  rintro result d₃ - ⟨-, hfails, -⟩ h
  exact absurd h hfails

theorem keeps_migrateIfLegacy (hworking : d.HasWorkingDirectory)
    (hread : d.read locations.mainFile = .ok bytes) :
    (migrateIfLegacy reader locations environment).run.Keeps (Kept d locations bytes)
      (fun result d' ↦ result = .ok none ∨ FailsMigration result → d' = d) d := by
  have hkept := Kept.unchanged d locations bytes
  rw [migrateIfLegacy]
  apply Keeps.bind_ok
  have hkeeps : (ofFiles (Access.readText locations.mainFile)).run.Keeps (Kept d locations bytes)
      (fun result d' ↦ d' = d ∧ ∀ q, result ≠ .error (.file (.notExist q))) d := by
    apply keeps_ofFiles
    refine (Access.keeps_readText hkept locations.mainFile).mono (fun _ ↦ id) ?_
    rintro (failure | text) d' - ⟨rfl, hfound⟩
    · refine ⟨rfl, fun q h ↦ ?_⟩
      obtain rfl := ConfigError.file.inj (Except.error.inj h)
      exact hfound bytes hread q rfl
    · exact ⟨rfl, fun _ h ↦ by cases h⟩
  refine keeps_unlessMissing hkeeps ?_ ?_ ?_
  · rintro text d' ⟨rfl, -⟩
    dsimp only [Ends]
    split
    · apply Keeps.bind_ok
      refine (keeps_migrate hworking hread).mono (fun _ ↦ id) ?_
      rintro (e | document) d₁ hkept₁ hd₁
      · rintro (h | h)
        · cases h
        · exact hd₁ h.of_error
      · refine ⟨hkept₁, ?_⟩
        rintro (h | ⟨_, _, h⟩)
        · cases h
        · cases h
    · exact ⟨hkept, fun _ ↦ rfl⟩
  · rintro q d' ⟨-, hfound⟩
    exact absurd rfl (hfound q)
  · rintro e d' ⟨hd', -⟩ -
    exact hd'

/-- A main file that is there is read and not written. -/
theorem keeps_readMain (hI : I d) {path : Path} (hread : d.read path = .ok bytes) :
    (readMain path).run.Keeps I (fun _ d' ↦ d' = d) d := by
  rw [readMain]
  apply Keeps.bind_ok
  refine keeps_unlessMissing (keeps_readDocument hI path) ?_ ?_ ?_
  · rintro document d' ⟨rfl, -⟩
    exact ⟨hI, rfl⟩
  · rintro q d' ⟨-, -, hfound⟩
    exact absurd rfl (hfound bytes hread q)
  · rintro e d' ⟨rfl, -⟩
    rfl

theorem keeps_loadMain (hworking : d.HasWorkingDirectory)
    (hread : d.read locations.mainFile = .ok bytes) :
    (loadMain reader locations environment).run.Keeps (Kept d locations bytes)
      (fun result d' ↦ FailsMigration result → d' = d) d := by
  rw [loadMain]
  apply Keeps.bind_ok
  refine (keeps_migrateIfLegacy hworking hread).mono (fun _ ↦ id) ?_
  rintro (e | _ | document) d' hkept hd'
  · exact fun h ↦ hd' (.inr h.of_error)
  · obtain rfl := hd' (.inl rfl)
    exact (keeps_readMain hkept hread).mono (fun _ ↦ id) fun _ _ _ h _ ↦ h
  · exact ⟨hkept, by rintro ⟨_, _, ⟨⟩⟩⟩

theorem keeps_load (hworking : d.HasWorkingDirectory)
    (hread : d.read locations.mainFile = .ok bytes) :
    (load reader locations environment).run.Keeps (Kept d locations bytes)
      (fun result d' ↦ FailsMigration result → d' = d) d := by
  rw [load]
  apply Keeps.bind_ok
  refine (keeps_loadMain hworking hread).mono (fun _ ↦ id) ?_
  rintro (e | document) d₁ hkept₁ hd₁
  · exact fun h ↦ hd₁ h.of_error
  apply Keeps.bind_ok
  refine (keeps_mergeScope hkept₁ _ _).mono (fun _ ↦ id) ?_
  rintro (e | s) d₂ hkept₂ hfails
  · exact fun h ↦ absurd h.of_error hfails
  · exact (keeps_mergeScope hkept₂ _ _).mono (fun _ ↦ id) fun _ _ _ hfails h ↦ absurd h hfails

/-! ## A disk with a renamed main file -/

/-- A disk on which the main file was renamed, and no new one was written. -/
def renamedMain (text : String) : Disk where
  nodes := [(["cfg"], .directory), (["cfg", "config.yml.bak"], .file text.toUTF8 false)]

theorem kind_backup_mainOnly (text : String) :
    (mainOnly text).kind false plainLocations.backupFile = .error .notFound := by
  have hwalk : (mainOnly text).walk false Disk.maxLinks [] ["cfg", "config.yml.bak"] =
      .ok (.free ["cfg"] "config.yml.bak") := by
    cbv
  have hresolve : (mainOnly text).resolve false plainLocations.backupFile =
      .ok (.free ["cfg"] "config.yml.bak") := Disk.resolve_of_walk rfl hwalk
  rw [Disk.kind, Disk.lookup, hresolve]
  rfl

theorem rename_mainOnly (text : String) :
    (mainOnly text).rename plainLocations.mainFile plainLocations.backupFile =
      .ok (renamedMain text) := by
  have hbackup : (mainOnly text).NamesEntry plainLocations.configDirectory "config.yml.bak" ["cfg"] :=
    ⟨Locations.isName_backupFile, by rfl, by decide, arrives_mainOnly text⟩
  have hmove : (mainOnly text).move ["cfg", "config.yml"] ["cfg", "config.yml.bak"] =
      renamedMain text := by
    cbv
  have hfree : (mainOnly text).node? ["cfg", "config.yml.bak"] = none := by cbv
  rw [← hmove, Locations.backupFile_eq]
  apply (namesEntry_mainOnly text).rename hbackup (by rfl) (by decide)
  rw [List.singleton_append, hfree]
  exact fun h ↦ by cases h

theorem run_backUp_mainOnly (text : String) :
    (Access.backUp plainLocations.mainFile plainLocations.backupFile).run.run (mainOnly text) =
      (.ok (), renamedMain text) := by
  have hperform : (mainOnly text).perform (.entryKind plainLocations.backupFile) =
      (.error .notFound, mainOnly text) := by
    rw [Disk.perform, kind_backup_mainOnly]
    rfl
  have hrename : (mainOnly text).perform (.rename plainLocations.mainFile plainLocations.backupFile) =
      (.ok (), renamedMain text) := by
    rw [Disk.perform, rename_mainOnly]
    rfl
  have hcall : (FileProgram.call (.entryKind plainLocations.backupFile)).run (mainOnly text) =
      (.error .notFound, mainOnly text) := hperform
  rw [Access.backUp, run_bind_ok (Access.run_lift hcall)]
  exact Access.run_attempt hrename

/-- Loading an old file may end right behind the renaming. -/
theorem mayLeave_renamedMain {settings : List (String × Yaml.Value)} {s : FileStore}
    (hlegacy : Legacy.isLegacy reader text = true) (hsettings : reader.settings text = .ok settings)
    (hconvert : Legacy.convert settings plainLocations environment = .ok s) :
    (load reader plainLocations environment).run.MayLeave (mainOnly text) (renamedMain text) := by
  have hmigrate : (migrate reader text plainLocations environment).run.MayLeave (mainOnly text)
      (renamedMain text) := by
    rw [migrate, hsettings]
    refine MayLeave.bind_run_ok (a := settings) rfl ?_
    rw [hconvert]
    refine MayLeave.bind_run_ok (a := s) rfl ?_
    exact MayLeave.bind_run_ok (Access.run_lift (run_backUp_mainOnly text)) (.start _ _)
  have hmain : (loadMain reader plainLocations environment).run.MayLeave (mainOnly text)
      (renamedMain text) := by
    apply MayLeave.bind_ok
    refine MayLeave.bind_run_ok (run_unlessMissing (run_readText_file (readText_mainOnly text))) ?_
    dsimp only
    rw [if_pos hlegacy]
    exact hmigrate.bind_ok
  exact hmain.bind_ok

/-! ## The main file -/

/-- Wherever loading ends or fails, the contents of the main file can be read, at its own path or at
that of the backup. With an older backup nothing changes at all, and neither does anything when the
carrying over is what failed. -/
theorem main_file_survives_load {p : FileProgram (Except ConfigError FileStore)}
    (hworking : d.HasWorkingDirectory) (hread : d.read locations.mainFile = .ok bytes)
    (hreaches : (load reader locations environment).run.Reaches d p d') :
    (d'.read locations.mainFile = .ok bytes ∨ d'.read locations.backupFile = .ok bytes) ∧
      (∀ kind, d.kind false locations.backupFile = .ok kind → d' = d) ∧
      ∀ path fault, p = .done (.error (.migration path fault)) → d' = d := by
  have hkeeps := (keeps_load hworking hread).reaches hreaches
  refine ⟨hkeeps.invariant.read hread, fun kind ↦ hkeeps.invariant.of_backup, ?_⟩
  rintro path fault rfl
  exact hkeeps.2 ⟨path, fault, rfl⟩

/-- A file with the old layout. -/
def oldText : String :=
  "gitlab.com:\n- token: a\n  oauth_token: b\neditor: vim\ngit.example.com:\n- token: c\n"

/-- What a reader answers about that file. -/
def oldSettings : List (String × Yaml.Value) :=
  [("gitlab.com", .sequence [.mapping [(.string "token", .string "a"),
      (.string "oauth_token", .string "b")]]),
    ("editor", .string "vim"),
    ("git.example.com", .sequence [.mapping [(.string "token", .string "c")]])]

/-- A reader that has read one file. -/
def readerOf (settings : List (String × Yaml.Value)) : Yaml.Reader where
  value _ := .ok (.mapping (settings.map fun (name, value) ↦ (.string name, value)))
  settings _ := .ok settings

theorem exists_convert_oldSettings :
    ∃ s, Legacy.convert oldSettings plainLocations {} = .ok s :=
  ⟨_, by cbv⟩

theorem main_file_survives_load_renamed :
    ∃ p, (load (readerOf oldSettings) plainLocations {}).run.Reaches (mainOnly oldText) p
        (renamedMain oldText) ∧
      ((renamedMain oldText).read plainLocations.mainFile = .ok oldText.toUTF8 ∨
        (renamedMain oldText).read plainLocations.backupFile = .ok oldText.toUTF8) ∧
      (∀ kind, (mainOnly oldText).kind false plainLocations.backupFile = .ok kind →
        renamedMain oldText = mainOnly oldText) ∧
      ∀ path fault, p = .done (.error (.migration path fault)) →
        renamedMain oldText = mainOnly oldText := by
  obtain ⟨s, hconvert⟩ := exists_convert_oldSettings
  obtain ⟨p, hreaches⟩ : (load (readerOf oldSettings) plainLocations {}).run.MayLeave
      (mainOnly oldText) (renamedMain oldText) :=
    mayLeave_renamedMain rfl rfl hconvert
  exact ⟨p, hreaches, main_file_survives_load (hasWorkingDirectory_mainOnly oldText)
    (read_mainOnly oldText) hreaches⟩

end FileStore

end LayeredConfig
