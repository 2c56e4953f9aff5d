import LayeredConfig.Proofs.Document.Places
import LayeredConfig.Proofs.Store.Built
import LayeredConfig.Proofs.Store.Settled

/-!
# The second load

What loading writes for the main file is the document of a first run, or that document with the
settings of an old file. No sequence can begin in either text if the settings hold no line breaks of
their own, so neither is taken for an old file, and the next load finds everything as it is.
-/

namespace LayeredConfig

open LayeredConfig.Tree
open LayeredConfig.Document
open LayeredConfig.FileProgram
open LayeredConfig.Yaml (mayHoldSequence)
open LayeredConfig.Yaml.Place (Unbroken Unmarked)

/-! ## Texts without sequences -/

namespace Defaults

theorem inLine_ofList {chars : List Char} (h : (chars.all fun c ↦ !Yaml.isBreak c) = true) :
    InLine .comment (String.ofList chars) := by
  intro c hc
  rw [String.toList_ofList] at hc
  simpa using List.all_eq_true.1 h c hc

set_option maxRecDepth 2000 in
theorem inLine_comment :
    ∀ text ∈ hostComment :: (globals ++ host).map Seed.comment, InLine .comment text := by
  simp only [globals, host, List.map_cons, List.map_nil, List.cons_append, List.nil_append,
    List.forall_mem_cons]
  refine ⟨?_, ?_, ?_, ?_, ?_, ?_, ?_, ?_, ?_, List.forall_mem_nil _⟩
  all_goals exact inLine_ofList (by decide +kernel)

theorem allowed_inLine : Allowed InLine where
  seed := by
    have hseeds : ∀ seed ∈ globals ++ host,
        (Unbroken seed.key.toList ∧ Unmarked seed.key.toList) ∧ Unbroken seed.text.toList := by
      decide +kernel
    exact fun seed hseed ↦
      ⟨inLine_comment _ (List.mem_cons_of_mem _ (List.mem_map_of_mem hseed)), hseeds seed hseed⟩
  hostComment := inLine_comment _ List.mem_cons_self
  hosts := ⟨by decide, by decide⟩
  hostname := ⟨by decide, by decide⟩

end Defaults

namespace Legacy

variable {reader : Yaml.Reader} {s s' : FileStore} {t : Tree} {assigned : List Assignment}
  {settings : List (String × Yaml.Value)} {text : String}

/-- A setting whose host, key and text hold no line breaks that only YAML knows, and whose names
have no meaning of their own at the start of a line. -/
structure Assignment.InLine (a : Assignment) : Prop where
  host : Tree.InLine .key a.host
  key : Tree.InLine .key a.key
  text : Tree.InLine .value a.text

theorem inLine_canonical {key : String} (h : InLine .key key) : InLine .key (Key.canonical key) := by
  rw [Key.canonical]
  split
  · rename_i k hfound
    have hknown : ∀ k ∈ Key.known, Unbroken k.canonical.toList ∧ Unmarked k.canonical.toList := by
      decide +kernel
    exact hknown k (List.mem_of_find?_eq_some hfound)
  · exact h

/-- Storing settings in a built tree keeps it built. -/
theorem built_store (ht : s.document.Holds t) (hmap : t.isMapping = true) (hbuilt : Built InLine t)
    (hall : ∀ a ∈ assigned, a.InLine) (h : store s assigned = .ok s') :
    ∃ t', s'.document.Holds t' ∧ t'.isMapping = true ∧ Built InLine t' := by
  induction assigned generalizing s t with
  | nil =>
    obtain rfl := Except.ok.inj h
    exact ⟨t, ht, hmap, hbuilt⟩
  | cons a assigned ih =>
    obtain ⟨ha, hall⟩ := List.forall_mem_cons.1 hall
    obtain ⟨s₁, hset, hrest⟩ := store_cons_eq_ok h
    obtain ⟨t₁, hstore, ht₁, -⟩ := FileStore.holds_set ht hset
    have hpath : ∀ name ∈ (FileStore.settingPath a.host (Key.canonical a.key)).1 ::
        (FileStore.settingPath a.host (Key.canonical a.key)).2, InLine .key name := by
      have hkey := inLine_canonical ha.key
      rw [FileStore.settingPath]
      split
      · exact List.forall_mem_singleton.2 hkey
      · exact List.forall_mem_cons.2 ⟨Defaults.allowed_inLine.hosts,
          List.forall_mem_cons.2 ⟨ha.host, List.forall_mem_singleton.2 hkey⟩⟩
    exact ih ht₁ (isMapping_storeAt hstore) (hbuilt.storeAt hpath ha.text hstore) hall hrest

theorem isLegacy_eq_false (hreader : reader.SeesSequences) (h : mayHoldSequence text = false) :
    isLegacy reader text = false := by
  rw [isLegacy]
  split
  · rfl
  · rename_i value hvalue
    exact hreader text value hvalue h _

/-- The document of a first run is not taken for an old file. -/
theorem isLegacy_defaults (hreader : reader.SeesSequences) :
    isLegacy reader (Defaults.document.encode Defaults.document.root []) = false := by
  have hholds : Defaults.document.Holds Defaults.tree := FileStore.hangs_ofFile Defaults.tree
  rw [encode_of_treeAt? hholds.tree?]
  exact isLegacy_eq_false hreader
    (mayHoldSequence_encode (Defaults.built_tree Defaults.allowed_inLine) rfl [])

/-- A converted document is not taken for an old file. -/
theorem isLegacy_convert {locations : Locations} {environment : Environment}
    (hreader : reader.SeesSequences) (h : convert settings locations environment = .ok s)
    (hall : ∀ a ∈ settings.flatMap fun (name, value) ↦ assignments name value, a.InLine) :
    isLegacy reader s.mainText = false := by
  obtain ⟨t, ht, hmap, hbuilt⟩ := built_store (FileStore.hangs_ofFile Defaults.tree) rfl
    (Defaults.built_tree Defaults.allowed_inLine) hall h
  rw [FileStore.mainText, encode_of_treeAt? ht.tree?]
  exact isLegacy_eq_false hreader (mayHoldSequence_encode hbuilt hmap _)

end Legacy

namespace FileStore

variable {reader : Yaml.Reader} {locations : Locations} {environment : Environment} {s : FileStore}
  {d d' : Disk} {text : String}

/-- The settings that loading would carry over hold no line breaks of their own. -/
def CarriesInLine (reader : Yaml.Reader) (locations : Locations) (d : Disk) : Prop :=
  ∀ text settings, ((Access.readText locations.mainFile).run.run d).1 = .ok text →
    Legacy.isLegacy reader text = true → reader.settings text = .ok settings →
    ∀ a ∈ settings.flatMap fun (name, value) ↦ Legacy.assignments name value, a.InLine

theorem MainText.isLegacy_eq_false (h : MainText reader locations environment d d' text)
    (hreader : reader.SeesSequences) (hcarried : CarriesInLine reader locations d) :
    Legacy.isLegacy reader text = false := by
  cases h with
  | kept hlegacy _ => exact hlegacy
  | converted hread hlegacy hsettings hconvert =>
    exact Legacy.isLegacy_convert hreader hconvert (hcarried _ _ hread hlegacy hsettings)
  | fresh => exact Legacy.isLegacy_defaults hreader

/-- What was loaded is loaded again, and no file is changed by the second load. -/
theorem load_again_of_inLine (htree : d.IsTree) (hworking : d.HasWorkingDirectory)
    (hroom : d.CanHold locations.configDirectory) (hreader : reader.SeesSequences)
    (hcarried : CarriesInLine reader locations d)
    (h : (load reader locations environment).run.run d = (.ok s, d')) :
    (load reader locations environment).run.run d' = (.ok s, d') := by
  obtain ⟨text, hread, hmain⟩ := mainText_of_load htree hworking hroom h
  exact load_again h hread (hmain.isLegacy_eq_false hreader hcarried)

/-- Loading settles in one step, and is otherwise read-only: what was loaded is loaded again without
a change to any file; wherever loading ends or fails, the files of the scopes are as they were, and
so is everything if the main file is there and has not the old layout. -/
theorem load_settles (htree : d.IsTree) (hworking : d.HasWorkingDirectory)
    (hroom : d.CanHold locations.configDirectory)
    (hapart : ∀ path ∈ [locations.aliasesFile, locations.localFile], d.Apart locations.mainFile path)
    (hreader : reader.SeesSequences) (hcarried : CarriesInLine reader locations d) :
    (∀ s d', (load reader locations environment).run.run d = (.ok s, d') →
      (load reader locations environment).run.run d' = (.ok s, d')) ∧
    ∀ d', (load reader locations environment).run.MayLeave d d' →
      (∀ path ∈ [locations.aliasesFile, locations.localFile], ∀ bytes, d.read path = .ok bytes →
        d'.read path = .ok bytes) ∧
      (¬ IsOutdated reader locations d → d' = d) := by
  refine ⟨fun s d' h ↦ load_again_of_inLine htree hworking hroom hreader hcarried h, ?_⟩
  rintro d' ⟨p, hreaches⟩
  have honly := ((keeps_load_onlyMain htree hworking hroom).reaches hreaches).invariant
  refine ⟨fun path hpath bytes hread ↦ ?_, fun hcurrent ↦ ?_⟩
  · rcases honly with rfl | ⟨-, hspares⟩
    · exact hread
    · exact hspares.read_eq (hapart path hpath) hread
  · rcases honly with rfl | ⟨houtdated, -⟩
    · rfl
    · exact absurd houtdated hcurrent

/-! ## An old file that is carried over -/

theorem isTree_mainOnly (text : String) : (mainOnly text).IsTree := by
  have hcfg : (mainOnly text).HasDirectory ["cfg"] := Disk.HasDirectory.root.concat rfl
  apply Disk.isTree_of_nodes
  exact List.forall_mem_cons.2 ⟨.root, List.forall_mem_singleton.2 hcfg⟩

theorem canHold_mainOnly (text : String) : (mainOnly text).CanHold plainLocations.configDirectory :=
  .inl (by cbv)

theorem apart_mainOnly (text : String) : ∀ path ∈ [plainLocations.aliasesFile, plainLocations.localFile],
    (mainOnly text).Apart plainLocations.mainFile path := by
  intro path hpath entry hentry
  rw [show plainLocations.mainFile = plainLocations.configDirectory.join "config.yml" from rfl,
    (namesEntry_mainOnly text).entryPlace] at hentry
  obtain rfl := Except.ok.inj hentry
  have hscope : ∃ scope, path = scopeFile ⟨.empty, plainLocations, {}⟩ scope := by
    rcases List.mem_pair.1 hpath with rfl | rfl
    · exact ⟨.aliases, rfl⟩
    · exact ⟨.localSettings, rfl⟩
  obtain ⟨scope, rfl⟩ := hscope
  exact not_mem_touched_mainOnly text rfl scope

/-- What stands in the file that takes the place of the old one. -/
def newSettings : List (Yaml.Value × Yaml.Value) :=
  [(.string "git_protocol", .string "ssh"), (.string "editor", .string "vim"),
    (.string "browser", .null), (.string "glamour_style", .string "dark"),
    (.string "check_update", .bool true),
    (.string "hosts", .mapping
      [(.string "gitlab.com", .mapping [(.string "api_protocol", .string "https"),
          (.string "api_host", .string "gitlab.com"), (.string "token", .string "b")]),
        (.string "git.example.com", .mapping [(.string "token", .string "c")])])]

/-- A reader that tells the old file from the new one. -/
def carryingReader : Yaml.Reader where
  value text := .ok (.mapping (if mayHoldSequence text then
    oldSettings.map fun (name, value) ↦ (.string name, value) else newSettings))
  settings _ := .ok oldSettings

theorem any_get?_eq_false {entries : List (Yaml.Value × Yaml.Value)}
    (h : ∀ entry ∈ entries, entry.2.isSequence = false) (name : String) :
    ((Yaml.Value.mapping entries).get? name).any Yaml.Value.isSequence = false := by
  change Option.any _ (entries.find? _ >>= fun entry ↦ some entry.2) = false
  cases hfind : entries.find? _ with
  | none => rfl
  | some entry => exact h entry (List.mem_of_find?_eq_some hfind)

theorem seesSequences_carryingReader : carryingReader.SeesSequences := by
  intro text value hvalue hnone
  obtain rfl := Except.ok.inj hvalue
  rw [hnone]
  exact any_get?_eq_false (by decide)

theorem load_settles_oldText :
    ∃ s disk₁, (load carryingReader plainLocations {}).run.run (mainOnly oldText) = (.ok s, disk₁) ∧
      disk₁ ≠ mainOnly oldText ∧
      (load carryingReader plainLocations {}).run.run disk₁ = (.ok s, disk₁) := by
  obtain ⟨s₀, hconvert⟩ := exists_convert_oldSettings
  have hlegacy : Legacy.isLegacy carryingReader oldText = true := by cbv
  obtain ⟨s, hload⟩ := exists_load_mainOnly hlegacy rfl hconvert
  have hcarried : CarriesInLine carryingReader plainLocations (mainOnly oldText) := by
    intro text settings _ _ hsettings
    obtain rfl := Except.ok.inj hsettings
    have hall : ∀ a ∈ oldSettings.flatMap fun (name, value) ↦ Legacy.assignments name value,
        (Unbroken a.host.toList ∧ Unmarked a.host.toList) ∧
          (Unbroken a.key.toList ∧ Unmarked a.key.toList) ∧ Unbroken a.text.toList := by
      decide +kernel
    intro a ha
    obtain ⟨hhost, hkey, htext⟩ := hall a ha
    exact ⟨hhost, hkey, htext⟩
  obtain ⟨hagain, -⟩ := load_settles (isTree_mainOnly oldText) (hasWorkingDirectory_mainOnly oldText)
    (canHold_mainOnly oldText) (apart_mainOnly oldText) seesSequences_carryingReader hcarried
  refine ⟨s, _, hload, fun hsame ↦ ?_, hagain s _ hload⟩
  have hlength : 3 = 2 := congrArg (fun d ↦ d.nodes.length) hsame
  exact absurd hlength (by decide)

/-! ## An old file that is written as one -/

/-- While the backup of an old file is there, a main file that is taken for an old one is not
loaded. -/
theorem run_load_of_backup {settings : List (String × Yaml.Value)} {kind : FileKind}
    (hread : ((Access.readText locations.mainFile).run.run d).1 = .ok text)
    (hlegacy : Legacy.isLegacy reader text = true) (hsettings : reader.settings text = .ok settings)
    (hconvert : Legacy.convert settings locations environment = .ok s)
    (hbackup : d.kind false locations.backupFile = .ok kind) :
    (load reader locations environment).run.run d = (.error (.migration locations.mainFile
      (.backup (.failed .backUp locations.mainFile (.occupied locations.backupFile)))), d) := by
  have hperform : (FileProgram.call (.entryKind locations.backupFile)).run d = (.ok kind, d) := by
    rw [run_call, Disk.perform, hbackup]
    rfl
  have hbackUp : (Access.backUp locations.mainFile locations.backupFile).run.run d =
      (.error (.failed .backUp locations.mainFile (.occupied locations.backupFile)), d) := by
    rw [Access.backUp, run_bind_ok (Access.run_lift hperform)]
    rfl
  have hmigrate : (migrate reader text locations environment).run.run d =
      (.error (.migration locations.mainFile
        (.backup (.failed .backUp locations.mainFile (.occupied locations.backupFile)))), d) := by
    rw [migrate, hsettings, run_bind_ok (a := settings) rfl, hconvert, run_bind_ok (a := s) rfl,
      run_bind_ok (Access.run_lift hbackUp)]
    exact run_bind_error rfl _
  have hmain : (migrateIfLegacy reader locations environment).run.run d =
      (.error (.migration locations.mainFile
        (.backup (.failed .backUp locations.mainFile (.occupied locations.backupFile)))), d) := by
    rw [migrateIfLegacy, run_bind_ok (run_unlessMissing (run_readText_file hread))]
    dsimp only
    rw [if_pos hlegacy]
    exact run_bind_error hmigrate _
  rw [load, loadMain]
  exact run_bind_error (run_bind_error hmain _) _

theorem kind_backup_of_walk
    (hwalk : d.walk false Disk.maxLinks [] ["cfg", "config.yml.bak"] =
      .ok (.found ["cfg", "config.yml.bak"] (.file text.toUTF8 false))) :
    d.kind false plainLocations.backupFile = .ok (.file false) := by
  have hresolve : d.resolve false plainLocations.backupFile =
      .ok (.found ["cfg", "config.yml.bak"] (.file text.toUTF8 false)) :=
    Disk.resolve_of_walk rfl hwalk
  rw [Disk.kind, Disk.lookup, hresolve]
  rfl

theorem kind_backup_carriedOver (text contents : String) :
    (carriedOver text contents).kind false plainLocations.backupFile = .ok (.file false) :=
  kind_backup_of_walk (by cbv)

/-- An old file in which the value of a key holds line separators, written as escapes. -/
def brokenText : String :=
  "gitlab.com:\n- token: x\neditor: \"a\\Lgitlab.com:\\L- token\"\n"

/-- What that file says. -/
def brokenSettings : List (String × Yaml.Value) :=
  [("gitlab.com", .sequence [.mapping [(.string "token", .string "x")]]),
    ("editor", .string "a\u2028gitlab.com:\u2028- token")]

/-- What is read where the separators stand as they are: they end lines. -/
def separatedSettings : List (String × Yaml.Value) :=
  [("editor", .string "a"), ("gitlab.com", .sequence [.string "token"])]

/-- A reader for that file and for the one that takes its place. -/
def breakingReader : Yaml.Reader where
  value text := .ok (.mapping ((if text = brokenText then brokenSettings
    else separatedSettings).map fun (name, value) ↦ (.string name, value)))
  settings text := .ok (if text = brokenText then brokenSettings else separatedSettings)

theorem answers_breakingReader (text : String) :
    Legacy.isLegacy breakingReader text = true ∧ ∃ settings s,
      breakingReader.settings text = .ok settings ∧
      Legacy.convert settings plainLocations {} = .ok s := by
  unfold Legacy.isLegacy breakingReader
  dsimp only
  by_cases htext : text = brokenText
  · rw [if_pos htext]
    exact ⟨rfl, brokenSettings, _, rfl, by cbv⟩
  · rw [if_neg htext]
    exact ⟨rfl, separatedSettings, _, rfl, by cbv⟩

/-- A value is written plain with the line separators that it holds, and the file that was just
written is taken for an old one: the next load fails. -/
theorem second_load_fails :
    ∃ s disk₁ fault, (load breakingReader plainLocations {}).run.run (mainOnly brokenText) =
        (.ok s, disk₁) ∧
      (load breakingReader plainLocations {}).run.run disk₁ =
        (.error (.migration plainLocations.mainFile fault), disk₁) := by
  obtain ⟨hlegacy, settings, s₀, hsettings, hconvert⟩ := answers_breakingReader brokenText
  obtain ⟨s, hload⟩ := exists_load_mainOnly hlegacy hsettings hconvert
  obtain ⟨hlegacy₁, settings₁, s₁, hsettings₁, hconvert₁⟩ := answers_breakingReader s₀.mainText
  exact ⟨s, _, _, hload, run_load_of_backup (readText_carriedOver brokenText s₀.mainText) hlegacy₁
    hsettings₁ hconvert₁ (kind_backup_carriedOver brokenText s₀.mainText)⟩

end FileStore

end LayeredConfig
