import LayeredConfig.Proofs.Files.Writing
import LayeredConfig.Proofs.Store.Migration

/-!
# Loading settles

Loading writes the main file when it is missing or has the old layout, and no file else. What was
loaded is loaded again without any change to a file.
-/

namespace LayeredConfig.FileStore

open LayeredConfig.FileProgram
open LayeredConfig.Document (parse)
open LayeredConfig.Disk (Extends Spares Unused NamesEntry HasWorkingDirectory IsTree)

variable {α : Type} {d d' base : Disk} {locations : Locations} {environment : Environment}
  {reader : Yaml.Reader} {bytes : ByteArray} {text : String} {folder : Location} {I : Disk → Prop}

theorem isFileName_mainFile : Path.IsFileName "config.yml" where
  toIsName := isName_mainFile
  noDotFirst := by decide
  size := by decide

/-! ## Carrying over -/

/-- The renaming of the main file takes its entry away, and gives another one that was free. -/
theorem keeps_backUp_of_extends (h : Extends base d) (hworking : base.HasWorkingDirectory)
    (hentry : base.NamesEntry locations.configDirectory "config.yml" folder)
    (hfree : base.Unused (folder ++ ["config.yml"])) :
    (Access.backUp locations.mainFile locations.backupFile).run.Keeps (Extends base)
      (fun _ _ ↦ True) d := by
  rw [Access.backUp]
  apply Keeps.bind_ok
  apply keeps_lift
  refine keeps_call h fun answer d₁ hattempt ↦ ?_
  obtain ⟨rfl, rfl⟩ := hattempt.entryKind
  refine ⟨h, ?_⟩
  cases hkind : d₁.kind false locations.backupFile with
  | ok kind => exact ⟨h, trivial⟩
  | error cause =>
    have hrenames : (Access.attempt .backUp locations.mainFile
        (.rename locations.mainFile locations.backupFile)).run.Keeps (Extends base)
        (fun _ _ ↦ True) d₁ := by
      refine Access.keeps_attempt h fun answer d₂ hattempt ↦ ?_
      obtain ⟨-, rfl⟩ | ⟨-, hrename⟩ := hattempt.rename
      · exact ⟨h, trivial⟩
      · obtain ⟨source, target, hsource, htarget, hcases⟩ := Disk.rename_cases hrename
        have hmain := h.namesEntry hworking hentry
        obtain rfl := Except.ok.inj (hmain.entryPlace.symm.trans hsource)
        rw [locations.backupFile_eq] at htarget hkind
        obtain ⟨other, hbackup, rfl⟩ := Disk.namesEntry_of_entryPlace Locations.isName_backupFile htarget
        have hnone : d₁.node? (other ++ ["config.yml.bak"]) = none := by
          rw [Option.eq_none_iff_forall_ne_some]
          intro node hnode
          obtain ⟨kind, hfound⟩ := hbackup.exists_kind hnode
          rw [hfound] at hkind
          cases hkind
        rcases hcases with ⟨-, rfl⟩ | rfl
        · exact ⟨h, trivial⟩
        · exact ⟨h.move hfree (h.unused hnone), trivial⟩
    cases cause with
    | nulInName => exact ⟨h, trivial⟩
    | _ => exact hrenames

theorem keeps_migrate_of_extends (hworking : base.HasWorkingDirectory)
    (hentry : base.NamesEntry locations.configDirectory "config.yml" folder)
    (hfree : base.Unused (folder ++ ["config.yml"])) (h : Extends base d) :
    (migrate reader text locations environment).run.Keeps (Extends base) (fun _ _ ↦ True) d := by
  rw [migrate]
  apply Keeps.bind_ok
  refine (keeps_migration h _ _).mono (fun _ ↦ id) ?_
  rintro (e | settings) d₁ h₁ -
  · trivial
  apply Keeps.bind_ok
  refine (keeps_migration h₁ _ _).mono (fun _ ↦ id) ?_
  rintro (e | s) d₂ h₂ hs
  · trivial
  apply Keeps.bind_ok
  apply keeps_lift
  refine (keeps_backUp_of_extends h₂ hworking hentry hfree).mono (fun _ ↦ id) ?_
  rintro backup d₃ h₃ -
  apply Keeps.bind_ok
  refine (keeps_migration h₃ _ _).mono (fun _ ↦ id) ?_
  rintro (e | ⟨⟩) d₄ h₄ -
  · trivial
  have hlocations : s.locations = locations := Legacy.locations_store (mapError_eq_ok_iff.1 hs.1)
  apply Keeps.bind_ok
  rw [write, hlocations]
  apply keeps_ofFiles
  refine (Access.keeps_writeText h₄ hworking hentry hfree _).mono (fun _ ↦ id) ?_
  rintro (failure | ⟨⟩) d₅ h₅ -
  · trivial
  exact (keeps_readDocument h₅ _).mono (fun _ ↦ id) fun _ _ _ _ ↦ trivial

/-! ## What loading may change -/

/-- The main file is missing, or it has the old layout. -/
def IsOutdated (reader : Yaml.Reader) (locations : Locations) (d : Disk) : Prop :=
  d.read locations.mainFile = .error .notFound ∨
    ∃ bytes text, d.read locations.mainFile = .ok bytes ∧ String.fromUTF8? bytes = some text ∧
      Legacy.isLegacy reader text = true

/-- Nothing has changed, or the main file had to be written and all else was spared. -/
def WritesOnlyMain (reader : Yaml.Reader) (locations : Locations) (d d' : Disk) : Prop :=
  d' = d ∨ IsOutdated reader locations d ∧ d.Spares d' locations.mainFile

theorem WritesOnlyMain.eq_of_current (h : WritesOnlyMain reader locations d d')
    (hread : d.read locations.mainFile = .ok bytes) (htext : String.fromUTF8? bytes = some text)
    (hlegacy : Legacy.isLegacy reader text = false) : d' = d := by
  rcases h with rfl | ⟨hmissing | ⟨bytes', text', hread', htext', hlegacy'⟩, -⟩
  · rfl
  · rw [hread] at hmissing
    cases hmissing
  · obtain rfl := Except.ok.inj (hread.symm.trans hread')
    obtain rfl := Option.some.inj (htext.symm.trans htext')
    rw [hlegacy] at hlegacy'
    cases hlegacy'

theorem keeps_migrate_onlyMain (htree : d.IsTree) (hworking : d.HasWorkingDirectory)
    (hread : d.read locations.mainFile = .ok bytes) (htext : String.fromUTF8? bytes = some text)
    (hlegacy : Legacy.isLegacy reader text = true) :
    (migrate reader text locations environment).run.Keeps (WritesOnlyMain reader locations d)
      (fun _ _ ↦ True) d := by
  obtain ⟨goal, executable, hlookup⟩ := Disk.read_eq_ok hread
  obtain ⟨folder, hentry, hleads⟩ := Disk.namesEntry_of_lookup isName_mainFile hlookup
  have hreplaceable := hleads.replaceable isName_mainFile
  have hnot := hreplaceable.notDirectory
  refine (keeps_migrate_of_extends (hworking.erase hnot) (hentry.erase hreplaceable)
    (NamesEntry.unused_erase folder "config.yml") (Disk.extends_erase (List.concat_ne_nil _ _))).mono
    (fun d' h ↦ ?_) fun _ _ _ h ↦ h
  exact .inr ⟨.inr ⟨bytes, text, hread, htext, hlegacy⟩,
    Disk.spares_of_extends_erase hentry h htree hnot⟩

theorem keeps_readDocument_missing (hI : I d) (path : Path) :
    (readDocument path).run.Keeps I (fun result d' ↦ d' = d ∧
      ∀ q, result = .error (.file (.notExist q)) → d.read path = .error .notFound) d := by
  rw [readDocument]
  apply Keeps.bind_ok
  apply keeps_ofFiles
  refine (Access.keeps_readText_result hI path).mono (fun _ ↦ id) ?_
  rintro (failure | text) d' hI' ⟨rfl, -, hmissing⟩
  · refine ⟨rfl, fun q h ↦ hmissing q ?_⟩
    exact congrArg _ (ConfigError.file.inj (Except.error.inj h))
  · change FileProgram.Keeps I _ (ExceptT.run _) _
    split
    · exact keeps_pure hI' ⟨rfl, fun _ h ↦ by cases h⟩
    · exact keeps_pure hI' ⟨rfl, fun _ h ↦ by cases h⟩

/-- A main file is written when it is missing and at no other time. -/
theorem keeps_readMain_onlyMain (htree : d.IsTree) (hworking : d.HasWorkingDirectory)
    (hroom : d.CanHold locations.configDirectory) :
    (readMain locations.mainFile).run.Keeps (WritesOnlyMain reader locations d)
      (fun _ _ ↦ True) d := by
  have hunchanged : WritesOnlyMain reader locations d d := .inl rfl
  rw [readMain]
  apply Keeps.bind_ok
  refine keeps_unlessMissing (keeps_readDocument_missing hunchanged locations.mainFile) ?_ ?_ ?_
  · rintro document d' ⟨rfl, -⟩
    exact ⟨hunchanged, trivial⟩
  · rintro q d' ⟨rfl, hmissing⟩
    have hnotFound := hmissing q rfl
    have honly (d₁ : Disk) (h : d'.Spares d₁ locations.mainFile) :
        WritesOnlyMain reader locations d' d₁ :=
      .inr ⟨.inl hnotFound, h⟩
    apply Keeps.bind_ok
    apply keeps_ofFiles
    refine (Access.keeps_writeText_vacant htree hworking isFileName_mainFile hnotFound hroom _).mono
      honly ?_
    rintro (failure | ⟨⟩) d₁ h₁ -
    · trivial
    exact (keeps_readDocument (honly d₁ h₁) _).mono (fun _ ↦ id) fun _ _ _ _ ↦ trivial
  · rintro e d' -
    trivial

theorem keeps_loadMain_onlyMain (htree : d.IsTree) (hworking : d.HasWorkingDirectory)
    (hroom : d.CanHold locations.configDirectory) :
    (loadMain reader locations environment).run.Keeps (WritesOnlyMain reader locations d)
      (fun _ _ ↦ True) d := by
  have hunchanged : WritesOnlyMain reader locations d d := .inl rfl
  have hreadMain : (readMain locations.mainFile).run.Keeps (WritesOnlyMain reader locations d)
      (fun _ _ ↦ True) d := keeps_readMain_onlyMain htree hworking hroom
  have hkept : (migrateIfLegacy reader locations environment).run.Keeps
      (WritesOnlyMain reader locations d) (fun result d' ↦ result = .ok none → d' = d) d := by
    rw [migrateIfLegacy]
    apply Keeps.bind_ok
    have hread : (ofFiles (Access.readText locations.mainFile)).run.Keeps
        (WritesOnlyMain reader locations d) (fun result d' ↦ d' = d ∧ ∀ text, result = .ok text →
          ∃ bytes, d.read locations.mainFile = .ok bytes ∧ String.fromUTF8? bytes = some text) d := by
      apply keeps_ofFiles
      refine (Access.keeps_readText_result hunchanged locations.mainFile).mono (fun _ ↦ id) ?_
      rintro result d' - ⟨rfl, htext, -⟩
      exact ⟨rfl, fun text h ↦ htext text (mapError_eq_ok_iff.1 h)⟩
    refine keeps_unlessMissing hread ?_ ?_ ?_
    · rintro text d' ⟨rfl, htext⟩
      obtain ⟨bytes, hbytes, hdecoded⟩ := htext text rfl
      dsimp only [Ends]
      split
      · rename_i hlegacy
        apply Keeps.bind_ok
        refine (keeps_migrate_onlyMain htree hworking hbytes hdecoded hlegacy).mono (fun _ ↦ id) ?_
        rintro (e | document) d₁ h₁ -
        · exact fun h ↦ by cases h
        · exact ⟨h₁, fun h ↦ by cases h⟩
      · exact ⟨hunchanged, fun _ ↦ rfl⟩
    · rintro q d' ⟨rfl, -⟩
      exact ⟨hunchanged, fun _ ↦ rfl⟩
    · rintro e d' ⟨rfl, -⟩ -
      rfl
  rw [loadMain]
  apply Keeps.bind_ok
  refine hkept.mono (fun _ ↦ id) ?_
  rintro (e | _ | document) d' honly hd'
  · trivial
  · obtain rfl := hd' rfl
    exact hreadMain
  · exact ⟨honly, trivial⟩

/-- Wherever loading ends or fails, it has written the main file at most, and only when that was
missing or had the old layout. -/
theorem keeps_load_onlyMain (htree : d.IsTree) (hworking : d.HasWorkingDirectory)
    (hroom : d.CanHold locations.configDirectory) :
    (load reader locations environment).run.Keeps (WritesOnlyMain reader locations d)
      (fun _ _ ↦ True) d := by
  rw [load]
  apply Keeps.bind_ok
  refine (keeps_loadMain_onlyMain htree hworking hroom).mono (fun _ ↦ id) ?_
  rintro (e | document) d₁ h₁ -
  · trivial
  apply Keeps.bind_ok
  refine (keeps_mergeScope h₁ _ _).mono (fun _ ↦ id) ?_
  rintro (e | s) d₂ h₂ -
  · trivial
  · exact (keeps_mergeScope h₂ _ _).mono (fun _ ↦ id) fun _ _ _ _ ↦ trivial

/-! ## What the main file holds then -/

/-- How the text of the main file has come about, that stands there behind a load. -/
inductive MainText (reader : Yaml.Reader) (locations : Locations) (environment : Environment)
    (d d' : Disk) : String → Prop
  | kept {text : String} (hlegacy : Legacy.isLegacy reader text = false) (hsame : d' = d) :
      MainText reader locations environment d d' text
  | converted {text : String} {settings : List (String × Yaml.Value)} {s₀ : FileStore}
      (hread : ((Access.readText locations.mainFile).run.run d).1 = .ok text)
      (hlegacy : Legacy.isLegacy reader text = true) (hsettings : reader.settings text = .ok settings)
      (hconvert : Legacy.convert settings locations environment = .ok s₀) :
      MainText reader locations environment d d' s₀.mainText
  | fresh (hmissing : d.read locations.mainFile = .error .notFound) :
      MainText reader locations environment d d' (Defaults.document.encode Defaults.document.root [])

theorem read_of_readText_missing {path absent : Path}
    (h : ((Access.readText path).run.run d).1 = .error (.notExist absent)) :
    d.read path = .error .notFound :=
  have hkeeps := Access.keeps_readText_result (I := fun _ ↦ True) (d := d) trivial path
  (hkeeps.reaches (reaches_run _ d)).2.2.2 absent h

/-- A main file that cannot be read is not carried over. Nothing is said to be missing but what is. -/
theorem migrateIfLegacy_eq_ok_of_error {failure : FileFailure} {found : Option Document}
    (hread : ((Access.readText locations.mainFile).run.run d).1 = .error failure)
    (h : (migrateIfLegacy reader locations environment).run.run d = (.ok found, d')) :
    found = none ∧ d' = d ∧ d.read locations.mainFile = .error .notFound := by
  obtain ⟨text, d₁, hlooked, hrest⟩ := run_bind_eq_ok h
  obtain ⟨text', rfl, htext⟩ | ⟨absent, rfl, htext⟩ := unlessMissing_eq_ok hlooked
  · rw [ofFiles_eq_ok htext] at hread
    cases hread
  · rw [run_readText_file hread] at htext
    cases htext
    cases hrest
    exact ⟨rfl, rfl, read_of_readText_missing hread⟩

/-- A main file that is missing is written with the defaults. -/
theorem readText_of_readMain (htree : d.IsTree) (hworking : d.HasWorkingDirectory)
    (hroom : d.CanHold locations.configDirectory) {document : Document}
    (hmissing : d.read locations.mainFile = .error .notFound)
    (h : (readMain locations.mainFile).run.run d = (.ok document, d')) :
    ((Access.readText locations.mainFile).run.run d').1 =
      .ok (Defaults.document.encode Defaults.document.root []) := by
  obtain ⟨found, d₁, hfound, hrest⟩ := run_bind_eq_ok h
  obtain ⟨document', rfl, hread⟩ | ⟨absent, rfl, hread⟩ := unlessMissing_eq_ok hfound
  · obtain ⟨-, text, htext, -⟩ := readDocument_eq_ok hread
    obtain ⟨-, bytes, hbytes, -⟩ := Access.readText_eq_ok htext
    rw [hmissing] at hbytes
    cases hbytes
  · obtain rfl : d₁ = d := by
      rw [← run_readDocument_snd locations.mainFile d, hread]
    obtain ⟨⟨⟩, d₂, hwrite, hreread⟩ := run_bind_eq_ok hrest
    obtain ⟨rfl, -⟩ := readDocument_eq_ok hreread
    exact (Access.written_of_writeText htree hworking isFileName_mainFile (.inl hmissing) hroom
      (ofFiles_eq_ok hwrite)).read

theorem mainText_of_load (htree : d.IsTree) (hworking : d.HasWorkingDirectory)
    (hroom : d.CanHold locations.configDirectory)
    (h : (load reader locations environment).run.run d = (.ok s, d')) :
    ∃ text, ((Access.readText locations.mainFile).run.run d').1 = .ok text ∧
      MainText reader locations environment d d' text := by
  cases hread : ((Access.readText locations.mainFile).run.run d).1 with
  | ok text =>
    cases hlegacy : Legacy.isLegacy reader text with
    | true =>
      obtain ⟨settings, s₀, hsettings, hconvert, hwritten⟩ := load_legacy_eq_ok hworking hread hlegacy h
      exact ⟨_, hwritten, .converted hread hlegacy hsettings hconvert⟩
    | false =>
      have hreaches := reaches_run (load reader locations environment).run d
      rw [h] at hreaches
      obtain ⟨-, bytes, hbytes, htext⟩ := Access.readText_eq_ok hread
      obtain rfl := ((keeps_load_onlyMain htree hworking hroom).reaches hreaches).1.eq_of_current
        hbytes htext hlegacy
      exact ⟨text, hread, .kept hlegacy rfl⟩
  | error failure =>
    obtain ⟨document, d₁, hmain, h⟩ := run_bind_eq_ok h
    obtain ⟨s₁, d₂, haliases, h⟩ := run_bind_eq_ok h
    obtain ⟨rfl, -⟩ := mergeScope_eq_ok h
    obtain ⟨rfl, -⟩ := mergeScope_eq_ok haliases
    obtain ⟨found, d₃, hfound, hreadMain⟩ := run_bind_eq_ok hmain
    obtain ⟨rfl, rfl, hmissing⟩ := migrateIfLegacy_eq_ok_of_error hread hfound
    exact ⟨_, readText_of_readMain htree hworking hroom hmissing hreadMain, .fresh hmissing⟩

/-- What was loaded is loaded again when the main file has not the old layout then, and no file is
changed. -/
theorem load_again (h : (load reader locations environment).run.run d = (.ok s, d'))
    (hread : ((Access.readText locations.mainFile).run.run d').1 = .ok text)
    (hlegacy : Legacy.isLegacy reader text = false) :
    (load reader locations environment).run.run d' = (.ok s, d') := by
  obtain ⟨text', document, part, hread', hparse, hstored, rfl⟩ := load_eq_ok h
  obtain rfl := Except.ok.inj (hread'.symm.trans hread)
  exact run_load hread hlegacy hparse hstored

end LayeredConfig.FileStore
