import LayeredConfig.Proofs.Store.Interrupted

/-!
# Loading an old file

Behind a load that carried an old main file over, every host has the settings of its own list, and
the settings at the top are the scalars of the old file. What is asked for one host depends on its
own list, on the local file and on those scalars, and on nothing that stands in another list.
-/

namespace LayeredConfig

open LayeredConfig.Tree
open LayeredConfig.Document
open LayeredConfig.FileProgram

/-! ## What an old file says -/

namespace Legacy

/-- The value of a host behind the carrying over: what its list says last, else that of the first
run. -/
def hostText? (settings : List (String × Yaml.Value)) (host key : String) : Option String :=
  (lastText? (hostSettings settings host) (Key.canonical key)).or
    (FileStore.settingAt? host (Key.canonical key) Defaults.tree)

/-- The value at the top. Nothing stands there under the key of a scope. -/
def topText? (settings : List (String × Yaml.Value)) (key : String) : Option String :=
  if Key.canonical key ∈ FileStore.scopeKeys then none
  else (lastText? (topSettings settings) (Key.canonical key)).or
    (FileStore.settingAt? "" (Key.canonical key) Defaults.tree)

/-- The answer for a setting: the first text that is not empty, of the host's own list, the local
file and the top of the old file. -/
def answer (settings : List (String × Yaml.Value)) (own : Option Document) (locations : Locations)
    (host key : String) : String × Path :=
  let layers := [(if host = "" then none else hostText? settings host key, locations.mainFile),
    (own >>= fun d ↦ d.get? d.root (Key.canonical key), locations.localFile),
    (topText? settings key, locations.mainFile)]
  (layers.findSome? fun (text, path) ↦ (nonEmpty? text).map (·, path)).getD
    (Key.default (Key.canonical key), locations.mainFile)

end Legacy

namespace FileStore

variable {reader : Yaml.Reader} {locations : Locations} {environment : Environment} {s s₀ : FileStore}
  {disk disk₁ disk₂ : Disk} {d : Document} {text contents : String} {bytes : ByteArray}
  {settings : List (String × Yaml.Value)} {t t₀ : Tree} {part : Scope → Option Document}

/-! ## Runs that carry a file over -/

theorem backedUp_of_run (hworking : disk.HasWorkingDirectory)
    (hread : disk.read locations.mainFile = .ok bytes)
    (h : (Access.backUp locations.mainFile locations.backupFile).run.run disk = (.ok (), disk₁)) :
    BackedUp disk locations bytes disk₁ := by
  have hkeeps := (keeps_backUp hworking hread).reaches (reaches_run _ disk)
  rw [h] at hkeeps
  exact hkeeps.2

/-- The new main file holds what was written. -/
theorem readText_of_backedUp (hbacked : BackedUp disk locations bytes disk₁)
    (hwrite : (Access.writeText locations.mainFile contents).run.run disk₁ = (.ok (), disk₂)) :
    ((Access.readText locations.mainFile).run.run disk₂).1 = .ok contents := by
  obtain ⟨directory, hentry, hfree⟩ := hbacked.main
  have hreplaceable := Disk.replaceable_of_free hfree (by decide)
  exact Access.readText_replaced hbacked.hasWorkingDirectory hentry hreplaceable
    (Access.writeText_eq_ok hentry hreplaceable hwrite)

theorem migration_eq_ok {α : Type} {path : Path} {result : Except MigrationFault α} {a : α}
    (h : (migration path result).run.run disk = (.ok a, disk₁)) : result = .ok a ∧ disk₁ = disk := by
  obtain ⟨hresult, hdisk⟩ := Prod.mk.inj h
  exact ⟨mapError_eq_ok_iff.1 hresult, hdisk.symm⟩

/-- What was carried over was converted, and the text of the converted document is what stands in
the main file. -/
theorem migrate_eq_ok (hworking : disk.HasWorkingDirectory)
    (hread : disk.read locations.mainFile = .ok bytes)
    (h : (migrate reader text locations environment).run.run disk = (.ok d, disk₁)) :
    ∃ settings s, reader.settings text = .ok settings ∧
      Legacy.convert settings locations environment = .ok s ∧
      ((Access.readText locations.mainFile).run.run disk₁).1 = .ok s.mainText := by
  obtain ⟨settings, _, hsettings, h₁⟩ := run_bind_eq_ok h
  obtain ⟨hsettings', rfl⟩ := migration_eq_ok hsettings
  obtain ⟨s, _, hs, h₂⟩ := run_bind_eq_ok h₁
  obtain ⟨hs', rfl⟩ := migration_eq_ok hs
  obtain ⟨backup, disk₂, hbackup, h₃⟩ := run_bind_eq_ok h₂
  obtain ⟨⟨⟩, _, hok, h₄⟩ := run_bind_eq_ok h₃
  obtain ⟨hok', rfl⟩ := migration_eq_ok hok
  obtain ⟨⟨⟩, disk₃, hwrite, h₅⟩ := run_bind_eq_ok h₄
  obtain ⟨rfl, -⟩ := readDocument_eq_ok h₅
  rcases hresult : (Access.backUp locations.mainFile locations.backupFile).run.run _ with ⟨result, _⟩
  rw [Access.run_lift hresult] at hbackup
  cases hbackup
  rw [mapError_eq_ok_iff.1 hok'] at hresult
  have hconverted := mapError_eq_ok_iff.1 hs'
  have hlocations : s.locations = locations := Legacy.locations_store hconverted
  have hwritten := ofFiles_eq_ok hwrite
  rw [hlocations] at hwritten
  exact ⟨settings, s, mapError_eq_ok_iff.1 hsettings', hconverted,
    readText_of_backedUp (backedUp_of_run hworking hread hresult) hwritten⟩

/-- An old main file is carried over. -/
theorem migrate_of_loadMain (hread : ((Access.readText locations.mainFile).run.run disk).1 = .ok text)
    (hlegacy : Legacy.isLegacy reader text = true)
    (h : (loadMain reader locations environment).run.run disk = (.ok d, disk₁)) :
    (migrate reader text locations environment).run.run disk = (.ok d, disk₁) := by
  obtain ⟨found, disk₂, hfound, hmain⟩ := run_bind_eq_ok h
  rw [migrateIfLegacy, run_bind_ok (run_unlessMissing (run_readText_file hread))] at hfound
  dsimp only at hfound
  rw [if_pos hlegacy] at hfound
  obtain ⟨d', disk₃, hmigrate, hsome⟩ := run_bind_eq_ok hfound
  cases hsome
  cases hmain
  exact hmigrate

/-- Behind a load that carried a file over, the main file holds the text of the converted document. -/
theorem load_legacy_eq_ok (hworking : disk.HasWorkingDirectory)
    (hread : ((Access.readText locations.mainFile).run.run disk).1 = .ok text)
    (hlegacy : Legacy.isLegacy reader text = true)
    (h : (load reader locations environment).run.run disk = (.ok s, disk₁)) :
    ∃ settings s₀, reader.settings text = .ok settings ∧
      Legacy.convert settings locations environment = .ok s₀ ∧
      ((Access.readText locations.mainFile).run.run disk₁).1 = .ok s₀.mainText := by
  obtain ⟨-, bytes, hbytes, -⟩ := Access.readText_eq_ok hread
  obtain ⟨d, disk₂, hmain, h₁⟩ := run_bind_eq_ok h
  have hmigrate := migrate_of_loadMain hread hlegacy hmain
  obtain ⟨s₁, disk₃, haliases, h₂⟩ := run_bind_eq_ok h₁
  obtain ⟨rfl, -⟩ := mergeScope_eq_ok h₂
  obtain ⟨rfl, -⟩ := mergeScope_eq_ok haliases
  exact migrate_eq_ok hworking hbytes hmigrate

/-! ## The settings behind a load -/

/-- The first text that is not empty is the answer for a setting. -/
theorem getWithSource_eq (s : FileStore) (host key : String) : s.getWithSource host key =
    ([(if host = "" then none else s.hostValue? host (Key.canonical key), s.locations.mainFile),
      (s.localValue? (Key.canonical key), s.locations.localFile),
      (s.globalValue? (Key.canonical key), s.locations.mainFile)].findSome?
        fun (text, path) ↦ (nonEmpty? text).map (·, path)).getD
      (Key.default (Key.canonical key), s.locations.mainFile) := by
  rw [getWithSource, List.findSome?_cons, List.findSome?_cons, List.findSome?_cons]
  dsimp only
  rw [nonEmpty?_of_host]
  cases nonEmpty? (if host = "" then none else s.hostValue? host (Key.canonical key)) with
  | some value => rfl
  | none =>
    cases nonEmpty? (s.localValue? (Key.canonical key)) with
    | some value => rfl
    | none =>
      cases nonEmpty? (s.globalValue? (Key.canonical key)) with
      | some value => rfl
      | none => rfl

/-- What a store holds whose main file is the written text of a converted document. -/
theorem settings_of_assembled (locations : Locations) (environment : Environment)
    (ht₀ : s₀.document.Holds t₀) (hfile : t₀.IsFile) (hparse : parse s₀.mainText = .ok d)
    (hparts : ∀ scope d, part scope = some d → ∃ text, parse text = .ok d) :
    (∀ host, host ≠ "" → ∀ key, (assembled d locations environment part).hostValue? host key =
      settingAt? host key t₀) ∧
    (∀ key, (assembled d locations environment part).globalValue? key =
      if key ∈ scopeKeys then none else settingAt? "" key t₀) ∧
    ∀ key, (assembled d locations environment part).localValue? key =
      part .localSettings >>= fun d ↦ d.get? d.root key := by
  obtain ⟨d', m, hreparse, hm, hmap, hbare⟩ :=
    exists_reread_mainText ht₀ (isFile_without hfile scopeKeys)
  obtain rfl := Except.ok.inj (hreparse.symm.trans hparse)
  obtain ⟨t, ht, hoverlay⟩ := holds_assembled hm hmap hparts locations environment
  refine ⟨fun host hne key ↦ ?_, fun key ↦ ?_, fun key ↦ ?_⟩
  · rw [hostValue?_eq ht, valueAt?_overlay hbare hoverlay (by decide), settingAt?,
      settingPath_of_not_isEmpty fun hempty ↦ hne (String.isEmpty_iff.1 hempty)]
  · rw [globalValue?_eq ht]
    split
    · rename_i hkey
      obtain ⟨scope, rfl⟩ := exists_scope_of_mem hkey
      rw [valueAt?, lookup?_overlay hbare hoverlay]
      cases hpart : part scope with
      | none => rfl
      | some own =>
        obtain ⟨text, hown⟩ := hparts scope own hpart
        obtain ⟨w, hw, hfile⟩ := holds_of_parse hown
        cases hfile
        exact congrArg (· >>= text?) hw.tree?
    · rename_i hkey
      rw [valueAt?_overlay hbare hoverlay hkey, settingAt?, settingPath_of_isEmpty rfl]
  · rw [localValue?_eq ht, valueAt?, lookup?_overlay hbare hoverlay]
    cases hpart : part .localSettings with
    | none => rfl
    | some own =>
      obtain ⟨text, hown⟩ := hparts .localSettings own hpart
      obtain ⟨w, hw, -⟩ := holds_of_parse hown
      have hvalue := globalValue?_eq (s := ⟨own, locations, environment⟩) hw key
      have htree : (some own >>= Document.tree?) = some w := hw.tree?
      rw [htree]
      exact hvalue.symm

/-- What the layers of a store hold behind the carrying over of an old file. -/
theorem layers_of_legacy (hworking : disk.HasWorkingDirectory)
    (hread : ((Access.readText locations.mainFile).run.run disk).1 = .ok text)
    (hlegacy : Legacy.isLegacy reader text = true)
    (hload : (load reader locations environment).run.run disk = (.ok s, disk₁)) :
    s.locations = locations ∧ ∃ settings own, reader.settings text = .ok settings ∧
      Stored disk₁ locations.localFile own ∧
      (∀ host, host ≠ "" → ∀ key,
        s.hostValue? host (Key.canonical key) = Legacy.hostText? settings host key) ∧
      (Legacy.hostSettings settings "" = [] → ∀ key,
        s.globalValue? (Key.canonical key) = Legacy.topText? settings key) ∧
      ∀ key, s.localValue? key = own >>= fun d ↦ d.get? d.root key := by
  obtain ⟨settings, s₀, hsettings, hconvert, hwritten⟩ :=
    load_legacy_eq_ok hworking hread hlegacy hload
  obtain ⟨text', d, part, hread', hparse, hstored, rfl⟩ := load_eq_ok hload
  obtain rfl := Except.ok.inj (hwritten.symm.trans hread')
  obtain ⟨t₀, ht₀, hfile, hhosts, htop⟩ := Legacy.holds_convert hconvert
  obtain ⟨hhost, hglobal, hlocal⟩ := settings_of_assembled locations environment ht₀ hfile hparse
    fun scope ↦ exists_parse_of_stored (hstored scope)
  refine ⟨locations_assembled .., settings, part .localSettings, hsettings, hstored .localSettings,
    fun host hne key ↦ ?_, fun hnameless key ↦ ?_, hlocal⟩
  · rw [hhost host hne, hhosts host hne, Legacy.hostText?]
  · rw [hglobal, htop hnameless, Legacy.topText?]

/-! ## A disk with a new main file -/

/-- A disk on which an old main file of this text was carried over. -/
def carriedOver (text contents : String) : Disk where
  nodes := [(["cfg"], .directory), (["cfg", "config.yml.bak"], .file text.toUTF8 false),
    (["cfg", "config.yml"], .file contents.toUTF8 false)]

theorem arrives_renamedMain (text : String) :
    ∃ left, (renamedMain text).Arrives Disk.maxLinks [] ["cfg"] left ["cfg"] := by
  have hwalk : (renamedMain text).walk true Disk.maxLinks [] ["cfg"] =
      .ok (.found ["cfg"] .directory) := by
    cbv
  exact Disk.arrives_of_walk hwalk

theorem run_writeText_renamedMain (text contents : String) :
    (Access.writeText plainLocations.mainFile contents).run.run (renamedMain text) =
      (.ok (), carriedOver text contents) := by
  have hentry : (renamedMain text).NamesEntry plainLocations.configDirectory "config.yml" ["cfg"] :=
    ⟨isName_mainFile, by rfl, by decide, arrives_renamedMain text⟩
  have hreplace : (renamedMain text).replace ["cfg"] "config.yml" contents.toUTF8 =
      carriedOver text contents := by
    cbv
  have hfresh : (renamedMain text).freshName ["cfg"] = Disk.temporaryName 0 := by cbv
  have htemporary : (renamedMain text).NamesEntry plainLocations.mainFile.directory
      (Disk.temporaryName 0) ["cfg"] := by
    rw [directory_mainFile]
    exact ⟨Disk.isName_temporaryName 0, by rfl, by decide, arrives_renamedMain text⟩
  rw [← hreplace]
  apply Access.run_writeText hentry (Disk.replaceable_of_free (by cbv) (by decide))
  rw [hfresh]
  exact htemporary

theorem readText_carriedOver (text contents : String) :
    ((Access.readText plainLocations.mainFile).run.run (carriedOver text contents)).1 =
      .ok contents :=
  readText_mainFile_of_walk (by cbv) (by cbv)

theorem stored_carriedOver (text contents : String) (hlocations : s.locations = plainLocations) :
    ∀ scope, Stored (carriedOver text contents) (s.scopeFile scope) none :=
  stored_none_of_walks hlocations (by cbv) (by cbv) (by cbv) (by cbv)

/-- An old file on a disk with nothing else is carried over when its settings can be stored. -/
theorem exists_load_mainOnly (hlegacy : Legacy.isLegacy reader text = true)
    (hsettings : reader.settings text = .ok settings)
    (hconvert : Legacy.convert settings plainLocations environment = .ok s₀) :
    ∃ s, (load reader plainLocations environment).run.run (mainOnly text) =
      (.ok s, carriedOver text s₀.mainText) := by
  obtain ⟨t₀, ht₀, hfile, -⟩ := Legacy.holds_convert hconvert
  obtain ⟨d, m, hparse, -⟩ := exists_reread_mainText ht₀ (isFile_without hfile scopeKeys)
  have hlocations : s₀.locations = plainLocations := Legacy.locations_store hconvert
  have hwrite : s₀.write.run.run (renamedMain text) = (.ok (), carriedOver text s₀.mainText) := by
    rw [write, run_ofFiles, hlocations, run_writeText_renamedMain]
    rfl
  have hmigrate : (migrate reader text plainLocations environment).run.run (mainOnly text) =
      (.ok d, carriedOver text s₀.mainText) := by
    rw [migrate, hsettings, run_bind_ok (a := settings) rfl, hconvert, run_bind_ok (a := s₀) rfl,
      run_bind_ok (Access.run_lift (run_backUp_mainOnly text)), run_bind_ok (a := ()) rfl,
      run_bind_ok hwrite]
    exact run_readDocument (readText_carriedOver text s₀.mainText) hparse
  have hfound : (migrateIfLegacy reader plainLocations environment).run.run (mainOnly text) =
      (.ok (some d), carriedOver text s₀.mainText) := by
    rw [migrateIfLegacy, run_bind_ok (run_unlessMissing (run_readText_file (readText_mainOnly text)))]
    dsimp only
    rw [if_pos hlegacy, run_bind_ok hmigrate]
    rfl
  have hmain : (loadMain reader plainLocations environment).run.run (mainOnly text) =
      (.ok d, carriedOver text s₀.mainText) := by
    rw [loadMain, run_bind_ok hfound]
    rfl
  exact ⟨_, run_load_of_loadMain hmain (stored_carriedOver text s₀.mainText rfl)⟩

/-! ## The settings of an old file -/

/-- What is loaded behind the carrying over of an old file: for every host the settings of its own
list, at the top the scalars of the file, and no setting of a list anywhere else. -/
theorem settings_of_legacy (hworking : disk.HasWorkingDirectory)
    (hread : ((Access.readText locations.mainFile).run.run disk).1 = .ok text)
    (hlegacy : Legacy.isLegacy reader text = true)
    (hload : (load reader locations environment).run.run disk = (.ok s, disk₁)) :
    ∃ settings own, reader.settings text = .ok settings ∧ Stored disk₁ locations.localFile own ∧
      (∀ host key, host ≠ "" → s.stored? host key = Legacy.hostText? settings host key) ∧
      (Legacy.hostSettings settings "" = [] →
        (∀ key, s.stored? "" key = Legacy.topText? settings key) ∧
        ∀ host key, s.getWithSource host key = Legacy.answer settings own locations host key) := by
  obtain ⟨hlocations, settings, own, hsettings, hown, hhosts, htop, hlocal⟩ :=
    layers_of_legacy hworking hread hlegacy hload
  refine ⟨settings, own, hsettings, hown, fun host key hne ↦ ?_, fun hnameless ↦ ⟨?_, ?_⟩⟩
  · rw [stored?, if_neg fun hempty ↦ hne (String.isEmpty_iff.1 hempty)]
    exact hhosts host hne key
  · exact htop hnameless
  · intro host key
    have hlayer : (if host = "" then none else s.hostValue? host (Key.canonical key)) =
        if host = "" then none else Legacy.hostText? settings host key := by
      split
      · rfl
      · rename_i hne
        exact hhosts host hne key
    rw [getWithSource_eq, hlayer, hlocal, htop hnameless, hlocations, Legacy.answer]

theorem settings_of_legacy_oldText :
    ∃ s disk₁, (load (readerOf oldSettings) plainLocations {}).run.run (mainOnly oldText) =
        (.ok s, disk₁) ∧
      s.stored? "gitlab.com" "gitlab_token" = some "b" ∧
      s.stored? "git.example.com" "token" = some "c" ∧
      s.stored? "" "editor" = some "vim" ∧
      s.getWithSource "git.example.com" "token" = ("c", plainLocations.mainFile) ∧
      s.getWithSource "gitlab.com" "editor" = ("vim", plainLocations.mainFile) ∧
      s.getWithSource "" "token" = ("", plainLocations.mainFile) := by
  obtain ⟨s₀, hconvert⟩ := exists_convert_oldSettings
  have hreader : (readerOf oldSettings).settings oldText = .ok oldSettings := rfl
  obtain ⟨s, hload⟩ := exists_load_mainOnly rfl hreader hconvert
  obtain ⟨settings, own, hsettings, hown, hhosts, htop⟩ := settings_of_legacy
    (hasWorkingDirectory_mainOnly oldText) (readText_mainOnly oldText) rfl hload
  obtain rfl := Except.ok.inj hsettings
  have hnone : Stored (carriedOver oldText s₀.mainText) plainLocations.localFile none :=
    stored_carriedOver (s := ⟨.empty, plainLocations, {}⟩) _ _ rfl .localSettings
  obtain rfl := hnone.unique hown
  obtain ⟨hstored, hanswer⟩ := htop rfl
  refine ⟨s, _, hload, ?_, ?_, ?_, ?_, ?_, ?_⟩
  · exact (hhosts _ _ (by decide)).trans (by decide +kernel)
  · exact (hhosts _ _ (by decide)).trans (by decide +kernel)
  · exact (hstored _).trans (by decide +kernel)
  · exact (hanswer _ _).trans (by decide +kernel)
  · exact (hanswer _ _).trans (by decide +kernel)
  · exact (hanswer _ _).trans (by decide +kernel)

/-- A file with the old layout and settings that are not carried over. -/
def lossyText : String :=
  "gitlab.com:\n- 1: a\naliases: x\ngit.example.com:\n- x\n- token: b\n"

/-- What a reader answers about that file. -/
def lossySettings : List (String × Yaml.Value) :=
  [("gitlab.com", .sequence [.mapping [(.number (.integer 1), .string "a")]]),
    ("aliases", .string "x"),
    ("git.example.com", .sequence [.string "x", .mapping [(.string "token", .string "b")]])]

/-- A setting whose name is a number, a scalar at the top under the key of a scope, and the settings
of a mapping that is not at the head of its list are not carried over. -/
theorem legacy_settings_lost :
    ∃ s disk₁, (load (readerOf lossySettings) plainLocations {}).run.run (mainOnly lossyText) =
        (.ok s, disk₁) ∧
      Legacy.isLegacy (readerOf lossySettings) lossyText = true ∧
      (readerOf lossySettings).settings lossyText = .ok lossySettings ∧
      s.stored? "gitlab.com" "1" = none ∧
      s.stored? "" "aliases" = none ∧
      s.stored? "git.example.com" "token" = none := by
  obtain ⟨s₀, hconvert⟩ : ∃ s, Legacy.convert lossySettings plainLocations {} = .ok s :=
    ⟨_, by cbv⟩
  have hreader : (readerOf lossySettings).settings lossyText = .ok lossySettings := rfl
  obtain ⟨s, hload⟩ := exists_load_mainOnly rfl hreader hconvert
  obtain ⟨-, settings, own, hsettings, -, hhosts, htop, -⟩ := layers_of_legacy
    (hasWorkingDirectory_mainOnly lossyText) (readText_mainOnly lossyText) rfl hload
  obtain rfl := Except.ok.inj hsettings
  refine ⟨s, _, hload, rfl, hreader, ?_, ?_, ?_⟩
  · exact (hhosts "gitlab.com" (by decide) "1").trans (by decide +kernel)
  · exact (htop rfl "aliases").trans (by decide +kernel)
  · exact (hhosts "git.example.com" (by decide) "token").trans (by decide +kernel)

end FileStore

end LayeredConfig
