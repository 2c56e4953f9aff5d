import Mathlib
import LayeredConfig.Proofs.Document.RoundTrip
import LayeredConfig.Proofs.Files.Untouched
import LayeredConfig.Proofs.Store.Scopes

/-!
# A setting survives the next load

A setting is stored in the merged document, and only the main file is written. When the three files
are loaded again, the stored setting is found, and so is everything that was found before writing.
-/

namespace LayeredConfig.FileStore

open LayeredConfig.Tree
open LayeredConfig.Document
open LayeredConfig.FileProgram

variable {s s₁ s₂ : FileStore} {t t₁ t₂ u : Tree} {part : Scope → Option Tree}
  {host key value : String} {d : Document} {text : String}

/-! ## The main file as a document -/

/-- The text of a file is read again as a document with the same texts. -/
theorem exists_reread (h : t.IsFile) :
    ∃ d m, parse (t.encode []) = .ok d ∧ d.Holds m ∧ m.isMapping = true ∧ m.bare = t.bare := by
  obtain ⟨m, hm, hfile⟩ := holds_of_parse (parse_encode h)
  obtain rfl := Option.some.inj ((tree?_ofFile t.rereadFile).symm.trans hm.tree?)
  exact ⟨_, _, parse_encode h, hm, isMapping_of_isFile hfile, bare_rereadFile t⟩

/-- The text that a store has for the main file is read again, without what hangs under the keys of
the scopes. -/
theorem exists_reread_mainText (ht : s.document.Holds t) (hfile : (t.without scopeKeys).IsFile) :
    ∃ d m, parse s.mainText = .ok d ∧ d.Holds m ∧ m.isMapping = true ∧
      m.bare = (t.without scopeKeys).bare := by
  have htext : s.mainText = (t.without scopeKeys).encode [] := by
    rw [mainText, encode_of_treeAt? ht.tree?, encode_without]
    rfl
  rw [htext]
  exact exists_reread hfile

theorem orderly_set {isKey : NodeId → Prop} (h : s.document.Orderly isKey)
    (hset : s.set host key value = (.ok (), s₁)) : ∃ isKey', s₁.document.Orderly isKey' := by
  unfold set at hset
  split at hset
  · obtain ⟨d, entry, htext, rfl⟩ := setAt_eq_ok hset
    exact h.setText htext
  · split at hset
    · cases hset
    · rename_i map s₂ hopen
      obtain ⟨d₁, hosts, d₂, hhosts, hmap, rfl⟩ := openHost_eq_ok hopen
      obtain ⟨d₃, entry, htext, rfl⟩ := setAt_eq_ok hset
      obtain ⟨isKey₁, h₁⟩ := h.ensureMapping hhosts
      obtain ⟨isKey₂, h₂⟩ := h₁.ensureMapping hmap
      exact h₂.setText htext

/-- Storing a setting in a document that was read from a file makes a file of it. -/
theorem isFile_storeSetting (hparse : parse text = .ok d) (hu : d.Holds u)
    (hstore : storeSetting host (Key.canonical key) value u = .ok t) : t.IsFile := by
  obtain ⟨s, hset, ht⟩ := set_of_storeSetting (s := ⟨d, ⟨⟨""⟩, ⟨""⟩⟩, {}⟩) hu hstore
  obtain ⟨isKey, horderly⟩ := orderly_of_parse hparse
  obtain ⟨isKey', horderly'⟩ := orderly_set horderly hset
  obtain ⟨t', htree, hfile⟩ := horderly'.exists_tree
  rw [ht.tree?] at htree
  exact Option.some.inj htree ▸ hfile

/-- What is written for the main file makes a file, whatever the other files hold. -/
theorem isFile_without_storeSetting (hparse : parse text = .ok d) (hu : d.Holds u)
    (hwithout : t.without scopeKeys = u.without scopeKeys)
    (hspares : host = "" → ∀ scope : Scope, key ≠ scope.key)
    (hstore : storeSetting host (Key.canonical key) value t = .ok t₁) :
    (t₁.without scopeKeys).IsFile := by
  have hkey := settingPath_not_mem_scopeKeys hspares
  have hvisible := storeAt_without hkey hstore
  rw [hwithout] at hvisible
  obtain ⟨u₁, hstore', hu₁⟩ := storeAt_of_without hkey hvisible
  rw [← hu₁]
  exact isFile_without (isFile_storeSetting hparse hu hstore') scopeKeys

/-! ## What is found again -/

/-- Two trees of stores hold the same texts, where an empty scope may be missing in the second. -/
structure Agrees (t₁ t₂ : Tree) : Prop where
  values : ∀ key, key ∉ scopeKeys → ∀ path, valueAt? (key :: path) t₂ = valueAt? (key :: path) t₁
  scopes : ∀ scope : Scope, t₂.lookup? scope.key = t₁.lookup? scope.key ∨
    t₂.lookup? scope.key = none ∧ tableOf scope (t₁.lookup? scope.key) = some ⟨[]⟩

/-- Outside the scopes, the tree of the written main file holds the texts of the tree in memory. -/
theorem valueAt?_overlay {m : Tree} (hbare : m.bare = (t₁.without scopeKeys).bare)
    (hoverlay : Overlay t₂ m part) (hkey : key ∉ scopeKeys) (path : List String) :
    valueAt? (key :: path) t₂ = valueAt? (key :: path) t₁ := by
  rw [← valueAt?_without hkey, hoverlay.without, valueAt?_without hkey, valueAt?_of_bare hbare,
    valueAt?_without hkey]

/-- The written main file holds no scopes of its own. -/
theorem lookup?_overlay {m : Tree} (hbare : m.bare = (t₁.without scopeKeys).bare)
    (hoverlay : Overlay t₂ m part) (scope : Scope) : t₂.lookup? scope.key = part scope := by
  have hnone : m.lookup? scope.key = none :=
    lookup?_of_bare hbare (lookup?_without_of_mem (key_mem_scopeKeys scope) t₁)
  rw [hoverlay.lookup, hnone, Option.or_none]

/-- The tree of the written main file agrees with the tree in memory, once it is overlaid again. -/
theorem agrees_overlay {m : Tree} (hbare : m.bare = (t₁.without scopeKeys).bare)
    (hoverlay : Overlay t₂ m part)
    (hscopes : ∀ scope : Scope, t₁.lookup? scope.key = part scope ∨
      part scope = none ∧ tableOf scope (t₁.lookup? scope.key) = some ⟨[]⟩) : Agrees t₁ t₂ := by
  refine ⟨fun _ hkey path ↦ valueAt?_overlay hbare hoverlay hkey path, fun scope ↦ ?_⟩
  · rw [lookup?_overlay hbare hoverlay]
    rcases hscopes scope with hpart | ⟨hpart, htable⟩
    · exact .inl hpart.symm
    · exact .inr ⟨hpart, htable⟩

theorem tableOf_agrees (h : Agrees t₁ t₂) (scope : Scope) :
    tableOf scope (t₂.lookup? scope.key) = tableOf scope (t₁.lookup? scope.key) := by
  rcases h.scopes scope with heq | ⟨hnone, htable⟩
  · rw [heq]
  · rw [hnone, htable]
    rfl

theorem localValue?_agrees (h : Agrees t₁ t₂) (key : String) :
    valueAt? [Scope.localSettings.key, key] t₂ = valueAt? [Scope.localSettings.key, key] t₁ := by
  rw [valueAt?, valueAt?]
  rcases h.scopes .localSettings with heq | ⟨hnone, htable⟩
  · rw [heq]
  · rw [hnone, (value_of_tableOf_empty htable).2]
    rfl

theorem globalValue?_agrees (h : Agrees t₁ t₂) (key : String) :
    nonEmpty? (valueAt? [key] t₂) = nonEmpty? (valueAt? [key] t₁) := by
  by_cases hkey : key ∈ scopeKeys
  · obtain ⟨scope, rfl⟩ := exists_scope_of_mem hkey
    rcases h.scopes scope with heq | ⟨hnone, htable⟩
    · rw [valueAt?, valueAt?, heq]
    · rw [valueAt?, valueAt?, hnone]
      exact (value_of_tableOf_empty htable).1.symm
  · rw [h.values key hkey]

theorem getWithSource_agrees (hs₁ : s₁.document.Holds t₁) (hs₂ : s₂.document.Holds t₂)
    (hlocations : s₂.locations = s₁.locations) (h : Agrees t₁ t₂) (host key : String) :
    s₂.getWithSource host key = s₁.getWithSource host key := by
  apply getWithSource_congr hlocations
  · rw [hostValue?_eq hs₁, hostValue?_eq hs₂, h.values _ (by decide)]
  · rw [localValue?_eq hs₁, localValue?_eq hs₂, localValue?_agrees h]
  · rw [globalValue?_eq hs₁, globalValue?_eq hs₂, globalValue?_agrees h]

/-! ## The stored value -/

/-- The value that is stored for a host, or the global value when no host is named. -/
def stored? (s : FileStore) (host key : String) : Option String :=
  if host.isEmpty then s.globalValue? (Key.canonical key)
  else s.hostValue? host (Key.canonical key)

theorem stored?_eq (h : s.document.Holds t) (host key : String) :
    s.stored? host key = valueAt? ((settingPath host (Key.canonical key)).1 ::
      (settingPath host (Key.canonical key)).2) t := by
  rw [stored?, settingPath]
  split
  · exact globalValue?_eq h _
  · exact hostValue?_eq h _ _

/-! ## The next load -/

variable {reader : Yaml.Reader} {locations : Locations} {environment : Environment}
  {disk disk₁ disk₂ : Disk}

theorem isName_mainFile : Path.IsName "config.yml" where
  nonempty := by decide
  noSlash := by decide
  noDotLast := by simp

theorem ofFiles_eq_ok {α : Type} {work : ExceptT FileFailure FileProgram α} {a : α}
    (h : (ofFiles work).run.run disk = (.ok a, disk₁)) : work.run.run disk = (.ok a, disk₁) := by
  rw [run_ofFiles] at h
  obtain ⟨hresult, hdisk⟩ := Prod.mk.inj h
  exact Prod.ext (mapError_eq_ok_iff.1 hresult) hdisk

theorem Stored.congr {path : Path} {found : Option Document} (h : Stored disk₁ path found)
    (hread : ((Access.readText path).run.run disk₂).1 = ((Access.readText path).run.run disk₁).1) :
    Stored disk₂ path found := by
  cases h with
  | missing h => exact .missing (hread.trans h)
  | found h hparse => exact .found (hread.trans h) hparse

/-- Behind a write of the main file, its path holds the text that was written, and the other files
hold what they held. -/
theorem read_of_write {text : String} {contents : String}
    (hread : ((Access.readText locations.mainFile).run.run disk₁).1 = .ok text)
    (hwrite : (Access.writeText locations.mainFile contents).run.run disk₁ = (.ok (), disk₂))
    (hworking : disk₁.HasWorkingDirectory) :
    ((Access.readText locations.mainFile).run.run disk₂).1 = .ok contents ∧
      ∃ entry, disk₁.entryPlace locations.mainFile = .ok entry ∧
        ∀ path, entry.location ∉ disk₁.touched path →
          ((Access.readText path).run.run disk₂).1 = ((Access.readText path).run.run disk₁).1 := by
  obtain ⟨-, bytes, hbytes, -⟩ := Access.readText_eq_ok hread
  obtain ⟨l, executable, hlookup⟩ := Disk.read_eq_ok hbytes
  obtain ⟨directory, hentry, hfile⟩ := Disk.namesEntry_of_lookup isName_mainFile hlookup
  have hreplaceable := hfile.replaceable isName_mainFile
  have hreplaced := Access.writeText_eq_ok hentry hreplaceable hwrite
  refine ⟨Access.readText_replaced hworking hentry hreplaceable hreplaced, _, hentry.entryPlace, ?_⟩
  exact fun path hpath ↦ Access.readText_untouched hreplaced hworking hpath

/-- Behind a write of the main file, the scopes are found as before. -/
theorem stored_of_write {contents text : String} {s : FileStore} {part : Scope → Option Document}
    (hread : ((Access.readText s.locations.mainFile).run.run disk₁).1 = .ok text)
    (hwrite : (Access.writeText s.locations.mainFile contents).run.run disk₁ = (.ok (), disk₂))
    (hworking : disk₁.HasWorkingDirectory)
    (hapart : ∀ scope entry, disk₁.entryPlace s.locations.mainFile = .ok entry →
      entry.location ∉ disk₁.touched (s.scopeFile scope))
    (hstored : ∀ scope, Stored disk₁ (s.scopeFile scope) (part scope)) :
    ∀ scope, Stored disk₂ (s.scopeFile scope) (part scope) := by
  obtain ⟨-, entry, hentry, hothers⟩ := read_of_write hread hwrite hworking
  exact fun scope ↦ (hstored scope).congr (hothers _ (hapart scope entry hentry))

/-- What a scope holds does not change when a setting is stored. -/
theorem lookup?_storeSetting_scope (hspares : host = "" → ∀ scope : Scope, key ≠ scope.key)
    (hstore : storeSetting host (Key.canonical key) value t = .ok t₁) (scope : Scope) :
    t₁.lookup? scope.key = t.lookup? scope.key := by
  have hne := ne_of_mem_of_not_mem (key_mem_scopeKeys scope) (settingPath_not_mem_scopeKeys hspares)
  rw [storeSetting] at hstore
  cases hpath : (settingPath host (Key.canonical key)).2 with
  | nil =>
    rw [hpath] at hstore
    exact lookup?_update_of_ne hstore hne
  | cons next path =>
    rw [hpath] at hstore
    exact lookup?_update_of_ne hstore hne

/-- A scope without a file of its own, which the main file does not make up for, has an empty
table. -/
theorem scopes_of_overlay {part : Scope → Option Document}
    (hparts : ∀ scope d, part scope = some d → ∃ text, parse text = .ok d)
    (hoverlay : Overlay t u fun scope ↦ part scope >>= Document.tree?)
    (hown : ∀ scope, part scope = none → tableOf scope (t.lookup? scope.key) = some ⟨[]⟩)
    (scope : Scope) :
    (t.lookup? scope.key = (part scope >>= Document.tree?) ∨
      (part scope >>= Document.tree?) = none ∧ tableOf scope (t.lookup? scope.key) = some ⟨[]⟩) ∧
    ∃ table, tableOf scope (t.lookup? scope.key) = some table := by
  cases hpart : part scope with
  | none => exact ⟨.inr ⟨rfl, hown scope hpart⟩, _, hown scope hpart⟩
  | some d =>
    obtain ⟨text, hparse⟩ := hparts scope d hpart
    obtain ⟨w, hw, hfile⟩ := holds_of_parse hparse
    have htree : (some d >>= Document.tree?) = some w := hw.tree?
    have hlookup : t.lookup? scope.key = some w := by
      rw [hoverlay.lookup, hpart, htree]
      rfl
    refine ⟨.inl (hlookup.trans htree.symm), ⟨w.texts⟩, ?_⟩
    rw [hlookup, tableOf, inside_of_isMapping (isMapping_of_isFile hfile)]
    rfl

/-- The setting that was stored before a write is found when the three files are loaded again, and
every lookup and every table gives what it gave before the write. -/
theorem set_survives_load (hload : (load reader locations environment).run.run disk = (.ok s, disk₁))
    (hset : s.set host key value = (.ok (), s₁))
    (hwrite : s₁.write.run.run disk₁ = (.ok (), disk₂))
    (hspares : host = "" → ∀ scope : Scope, key ≠ scope.key)
    (hown : ∀ scope, Stored disk₁ (s.scopeFile scope) none → s.table? scope = some ⟨[]⟩)
    (hworking : disk₁.HasWorkingDirectory)
    (hapart : ∀ scope entry, disk₁.entryPlace locations.mainFile = .ok entry →
      entry.location ∉ disk₁.touched (s.scopeFile scope))
    (hlegacy : Legacy.isLegacy reader s₁.mainText = false) :
    ∃ s₂, (load reader locations environment).run.run disk₂ = (.ok s₂, disk₂) ∧
      s₂.stored? host key = some value ∧
      (∀ host' key', s₂.getWithSource host' key' = s₁.getWithSource host' key') ∧
      ∀ scope, ∃ table, s₁.table? scope = some table ∧ s₂.table? scope = some table := by
  obtain ⟨text, d, part, hread, hparse, hstored, rfl⟩ := load_eq_ok hload
  have hparts : ∀ scope d, part scope = some d → ∃ text, parse text = .ok d :=
    fun scope ↦ exists_parse_of_stored (hstored scope)
  obtain ⟨u, hu, hfile⟩ := holds_of_parse hparse
  obtain ⟨t, ht, hoverlay⟩ := holds_assembled hu (isMapping_of_isFile hfile) hparts locations environment
  obtain ⟨t₁, hstore, ht₁, hlocations, -⟩ := holds_set ht hset
  rw [locations_assembled] at hlocations
  -- the text that is written, and what is read from it again
  have hvisible := isFile_without_storeSetting hparse hu hoverlay.without hspares hstore
  obtain ⟨d', m, hreparse, hm, hmap, hbare⟩ := exists_reread_mainText ht₁ hvisible
  have hwrite' := ofFiles_eq_ok hwrite
  rw [hlocations] at hwrite'
  simp only [scopeFile_assembled] at hapart hown
  have hstored' := stored_of_write (s := ⟨d, locations, environment⟩) hread hwrite' hworking hapart
    hstored
  -- the store of the next load, and its tree
  have hload' : (load reader locations environment).run.run _ =
      (.ok (assembled d' locations environment part), _) :=
    run_load (read_of_write hread hwrite' hworking).1 hlegacy hreparse hstored'
  obtain ⟨t₂, ht₂, hoverlay'⟩ := holds_assembled hm hmap hparts locations environment
  have hscopes := scopes_of_overlay hparts hoverlay fun scope hnone ↦ by
    rw [← table?_eq ht hoverlay.isMapping]
    exact hown scope (hnone ▸ hstored scope)
  have hkept := lookup?_storeSetting_scope hspares hstore
  have hagrees : Agrees t₁ t₂ := agrees_overlay hbare hoverlay' fun scope ↦ by
    rw [hkept scope]
    exact (hscopes scope).1
  refine ⟨_, hload', ?_, fun host' key' ↦ ?_, fun scope ↦ ?_⟩
  · have hkey := settingPath_not_mem_scopeKeys hspares
    rw [stored?_eq ht₂, hagrees.values _ hkey]
    exact valueAt?_storeAt hstore
  · refine getWithSource_agrees ht₁ ht₂ ?_ hagrees host' key'
    rw [locations_assembled, hlocations]
  · obtain ⟨table, htable⟩ := (hscopes scope).2
    refine ⟨table, ?_, ?_⟩
    · rw [table?_eq ht₁ (isMapping_storeAt hstore), hkept scope]
      exact htable
    · rw [table?_eq ht₂ hoverlay'.isMapping, tableOf_agrees hagrees, hkept scope]
      exact htable

/-! ## A disk with nothing but a main file -/

/-- A disk with a main file of this text. -/
def mainOnly (text : String) : Disk where
  nodes := [(["cfg"], .directory), (["cfg", "config.yml"], .file text.toUTF8 false)]

def plainLocations : Locations :=
  ⟨⟨"/cfg"⟩, ⟨"/repo"⟩⟩

variable {contents : String}

theorem directory_mainFile : plainLocations.mainFile.directory = ⟨"/cfg"⟩ := by decide +kernel

theorem hasWorkingDirectory_mainOnly (text : String) : (mainOnly text).HasWorkingDirectory :=
  Disk.HasDirectory.root

theorem arrives_mainOnly (text : String) :
    ∃ left, (mainOnly text).Arrives Disk.maxLinks [] ["cfg"] left ["cfg"] := by
  have hwalk : (mainOnly text).walk true Disk.maxLinks [] ["cfg"] = .ok (.found ["cfg"] .directory) := by
    cbv
  exact Disk.arrives_of_walk hwalk

theorem run_checkDirectory_mainOnly (text : String) :
    (Access.checkDirectory ⟨"/cfg"⟩).run.run (mainOnly text) = (.ok (), mainOnly text) := by
  cbv

theorem read_mainOnly (text : String) :
    (mainOnly text).read plainLocations.mainFile = .ok text.toUTF8 := by
  have hwalk : (mainOnly text).walk true Disk.maxLinks [] ["cfg", "config.yml"] =
      .ok (.found ["cfg", "config.yml"] (.file text.toUTF8 false)) := by
    cbv
  exact Disk.read_of_walk rfl hwalk

theorem readText_mainFile_of_walk
    (hcheck : (Access.checkDirectory ⟨"/cfg"⟩).run.run disk = (.ok (), disk))
    (hwalk : disk.walk true Disk.maxLinks [] ["cfg", "config.yml"] =
      .ok (.found ["cfg", "config.yml"] (.file contents.toUTF8 false))) :
    ((Access.readText plainLocations.mainFile).run.run disk).1 = .ok contents := by
  rw [← directory_mainFile] at hcheck
  exact Access.run_readText_of_read hcheck (Disk.read_of_walk rfl hwalk)
    (Access.fromUTF8?_toUTF8 contents)

theorem readText_mainOnly (text : String) :
    ((Access.readText plainLocations.mainFile).run.run (mainOnly text)).1 = .ok text :=
  readText_mainFile_of_walk (run_checkDirectory_mainOnly text) (by cbv)

/-- Nothing is found for the scopes on a disk that has the main file's directory, which holds no
alias file, and no repository. -/
theorem stored_none_of_walks (hlocations : s.locations = plainLocations)
    (hcfg : (Access.checkDirectory ⟨"/cfg"⟩).run.run disk = (.ok (), disk))
    (haliases : disk.walk true Disk.maxLinks [] ["cfg", "aliases.yml"] =
      .ok (.free ["cfg"] "aliases.yml"))
    (hrepo : (Access.checkDirectory ⟨"/repo"⟩).run.run disk = (.ok (), disk))
    (hlocal : disk.walk true Disk.maxLinks [] ["repo", "config.yml"] = .error .notFound) :
    ∀ scope, Stored disk (s.scopeFile scope) none
  | .aliases => by
    have hdirectory : plainLocations.aliasesFile.directory = ⟨"/cfg"⟩ := by decide +kernel
    rw [← hdirectory] at hcfg
    rw [scopeFile, hlocations]
    exact .missing (Access.run_readText_of_notFound hcfg (Disk.read_of_walk_free rfl haliases))
  | .localSettings => by
    have hdirectory : plainLocations.localFile.directory = ⟨"/repo"⟩ := by decide +kernel
    rw [← hdirectory] at hrepo
    rw [scopeFile, hlocations]
    exact .missing (Access.run_readText_of_notFound hrepo (Disk.read_of_walk_error rfl hlocal))

theorem stored_mainOnly (text : String) (hlocations : s.locations = plainLocations) :
    ∀ scope, Stored (mainOnly text) (s.scopeFile scope) none :=
  stored_none_of_walks hlocations (run_checkDirectory_mainOnly text) (by cbv) (by cbv) (by cbv)

theorem namesEntry_mainOnly (text : String) :
    (mainOnly text).NamesEntry plainLocations.configDirectory "config.yml" ["cfg"] :=
  ⟨isName_mainFile, by rfl, by decide, arrives_mainOnly text⟩

theorem run_writeText_mainOnly (text contents : String) :
    (Access.writeText plainLocations.mainFile contents).run.run (mainOnly text) =
      (.ok (), mainOnly contents) := by
  have hreplace : (mainOnly text).replace ["cfg"] "config.yml" contents.toUTF8 = mainOnly contents := by
    cbv
  have hfresh : (mainOnly text).freshName ["cfg"] = Disk.temporaryName 0 := by cbv
  have htemporary : (mainOnly text).NamesEntry plainLocations.mainFile.directory
      (Disk.temporaryName 0) ["cfg"] := by
    rw [directory_mainFile]
    exact ⟨Disk.isName_temporaryName 0, by rfl, by decide, arrives_mainOnly text⟩
  rw [← hreplace]
  have hfile : (mainOnly text).LeadsToFile ["cfg"] "config.yml" :=
    ⟨0, ["cfg", "config.yml"], text.toUTF8, false, by cbv⟩
  apply Access.run_writeText (namesEntry_mainOnly text) (hfile.replaceable isName_mainFile)
  rw [hfresh]
  exact htemporary

theorem run_write_mainOnly (text : String) (hlocations : s.locations = plainLocations) :
    s.write.run.run (mainOnly text) = (.ok (), mainOnly s.mainText) := by
  rw [write, run_ofFiles, hlocations, run_writeText_mainOnly]
  rfl

theorem touched_mainOnly (text : String) :
    (mainOnly text).touched plainLocations.mainFile = [["cfg"], ["cfg", "config.yml"], ["cfg"]] ∧
      (mainOnly text).touched plainLocations.aliasesFile =
        [["cfg"], ["cfg", "aliases.yml"], ["cfg"]] ∧
      (mainOnly text).touched plainLocations.localFile = [["repo"], ["repo"]] := by
  have hmain : plainLocations.mainFile :: plainLocations.mainFile.directory.ancestors =
      [⟨"/cfg/config.yml"⟩, ⟨"/cfg"⟩, ⟨"/"⟩] := by
    decide +kernel
  have haliases : plainLocations.aliasesFile :: plainLocations.aliasesFile.directory.ancestors =
      [⟨"/cfg/aliases.yml"⟩, ⟨"/cfg"⟩, ⟨"/"⟩] := by
    decide +kernel
  have hlocal : plainLocations.localFile :: plainLocations.localFile.directory.ancestors =
      [⟨"/repo/config.yml"⟩, ⟨"/repo"⟩, ⟨"/"⟩] := by
    decide +kernel
  have hsteps : (⟨"/cfg/config.yml"⟩ : Path).steps = ["cfg", "config.yml"] ∧
      (⟨"/cfg/aliases.yml"⟩ : Path).steps = ["cfg", "aliases.yml"] ∧
      (⟨"/repo/config.yml"⟩ : Path).steps = ["repo", "config.yml"] ∧
      (⟨"/cfg"⟩ : Path).steps = ["cfg"] ∧ (⟨"/repo"⟩ : Path).steps = ["repo"] ∧
      (⟨"/"⟩ : Path).steps = ["."] := by
    decide +kernel
  rw [Disk.touched, Disk.touched, Disk.touched, hmain, haliases, hlocal]
  simp [hsteps, mainOnly, Disk.trail, Disk.node?, Disk.start, Path.isAbsolute, Path.chars, List.lookup]

theorem not_mem_touched_mainOnly (text : String) (hlocations : s.locations = plainLocations)
    (scope : Scope) : ["cfg", "config.yml"] ∉ (mainOnly text).touched (s.scopeFile scope) := by
  obtain ⟨-, haliases, hlocal⟩ := touched_mainOnly text
  cases scope with
  | aliases =>
    rw [scopeFile, hlocations, haliases]
    decide
  | localSettings =>
    rw [scopeFile, hlocations, hlocal]
    decide

theorem run_load_mainOnly {text : String} (hlegacy : Legacy.isLegacy reader text = false)
    (hparse : parse text = .ok d) (environment : Environment) :
    (load reader plainLocations environment).run.run (mainOnly text) =
      (.ok ⟨d, plainLocations, environment⟩, mainOnly text) := by
  have hload : (load reader plainLocations environment).run.run (mainOnly text) =
      (.ok (assembled d plainLocations environment fun _ ↦ none), mainOnly text) :=
    run_load (readText_mainOnly text) hlegacy hparse (stored_mainOnly text rfl)
  exact hload

/-- What a reader answers about a file that names an editor, and about the same file when a host
has got a token. -/
def tokenReader : Yaml.Reader where
  value text := .ok (.mapping (if text = "editor: vim\n" then [(.string "editor", .string "vim")]
    else [(.string "editor", .string "vim"), (.string "hosts",
      .mapping [(.string "git.example.com", .mapping [(.string "token", .string "a: b")])])]))
  settings _ := .error (.malformed ⟨0, 0⟩)

theorem isLegacy_tokenReader (text : String) : Legacy.isLegacy tokenReader text = false := by
  unfold Legacy.isLegacy tokenReader
  dsimp only
  split
  · rfl
  · rfl

theorem set_survives_load_token :
    ∃ s s₁, (load tokenReader plainLocations {}).run.run (mainOnly "editor: vim\n") =
        (.ok s, mainOnly "editor: vim\n") ∧
      s.set "git.example.com" "gitlab_token" "a: b" = (.ok (), s₁) ∧
      s₁.write.run.run (mainOnly "editor: vim\n") = (.ok (), mainOnly s₁.mainText) ∧
      ∃ s₂, (load tokenReader plainLocations {}).run.run (mainOnly s₁.mainText) =
          (.ok s₂, mainOnly s₁.mainText) ∧
        s₂.stored? "git.example.com" "gitlab_token" = some "a: b" ∧
        (∀ host' key', s₂.getWithSource host' key' = s₁.getWithSource host' key') ∧
        ∀ scope, ∃ table, s₁.table? scope = some table ∧ s₂.table? scope = some table := by
  obtain ⟨d, hparse, htables, s₁, hset, hlocations⟩ : ∃ d, parse "editor: vim\n" = .ok d ∧
      (∀ scope, table? ⟨d, plainLocations, {}⟩ scope = some ⟨[]⟩) ∧
      ∃ s₁, FileStore.set ⟨d, plainLocations, {}⟩ "git.example.com" "gitlab_token" "a: b" =
        (.ok (), s₁) ∧ s₁.locations = plainLocations :=
    ⟨_, by cbv, fun scope ↦ by cases scope <;> cbv, _, by cbv, by cbv⟩
  have hload := run_load_mainOnly (isLegacy_tokenReader "editor: vim\n") hparse {}
  have hwrite := run_write_mainOnly "editor: vim\n" hlocations
  refine ⟨_, s₁, hload, hset, hwrite, ?_⟩
  refine set_survives_load hload hset hwrite (fun h ↦ absurd h (by decide)) (fun scope _ ↦ htables scope)
    (hasWorkingDirectory_mainOnly _) ?_ (isLegacy_tokenReader _)
  intro scope entry hentry
  rw [show plainLocations.mainFile = plainLocations.configDirectory.join "config.yml" from rfl,
    (namesEntry_mainOnly _).entryPlace] at hentry
  obtain rfl := Except.ok.inj hentry
  exact not_mem_touched_mainOnly _ rfl scope

/-! ## Settings that do not survive -/

/-- What a reader answers about a file that names an editor, and about one that holds aliases. -/
def hostlessReader : Yaml.Reader where
  value text := .ok (.mapping (if text = "editor: vim\n" then [(.string "editor", .string "vim")]
    else [(.string "aliases", .mapping [(.string "co", .string "mr checkout")])]))
  settings _ := .error (.malformed ⟨0, 0⟩)

theorem isLegacy_hostlessReader (text : String) : Legacy.isLegacy hostlessReader text = false := by
  unfold Legacy.isLegacy hostlessReader
  dsimp only
  split
  · rfl
  · rfl

/-- Aliases that stand in the main file, and a global setting under the key of the aliases, are
left out when the main file is written, and are gone after the next load. -/
theorem main_file_loses_aliases :
    (∃ s s₁ s₂, (load hostlessReader plainLocations {}).run.run
          (mainOnly "aliases:\n    co: mr checkout\n") =
        (.ok s, mainOnly "aliases:\n    co: mr checkout\n") ∧
      s.set "" "editor" "vim" = (.ok (), s₁) ∧
      s₁.write.run.run (mainOnly "aliases:\n    co: mr checkout\n") =
        (.ok (), mainOnly "editor: vim\n") ∧
      (load hostlessReader plainLocations {}).run.run (mainOnly "editor: vim\n") =
        (.ok s₂, mainOnly "editor: vim\n") ∧
      s₁.table? .aliases = some ⟨[("co", "mr checkout")]⟩ ∧ s₂.table? .aliases = some ⟨[]⟩) ∧
    ∃ s s₁, (load hostlessReader plainLocations {}).run.run (mainOnly "editor: vim\n") =
        (.ok s, mainOnly "editor: vim\n") ∧
      s.set "" "aliases" "x" = (.ok (), s₁) ∧
      s₁.write.run.run (mainOnly "editor: vim\n") = (.ok (), mainOnly "editor: vim\n") ∧
      s₁.stored? "" "aliases" = some "x" ∧ s.stored? "" "aliases" = none := by
  obtain ⟨d, hparse, hstored, htable, s₁, hset, hlocations, htext, hvalue⟩ :
      ∃ d, parse "editor: vim\n" = .ok d ∧ stored? ⟨d, plainLocations, {}⟩ "" "aliases" = none ∧
        table? ⟨d, plainLocations, {}⟩ .aliases = some ⟨[]⟩ ∧
        ∃ s₁, FileStore.set ⟨d, plainLocations, {}⟩ "" "aliases" "x" = (.ok (), s₁) ∧
          s₁.locations = plainLocations ∧ s₁.mainText = "editor: vim\n" ∧
          s₁.stored? "" "aliases" = some "x" :=
    ⟨_, by cbv, by cbv, by cbv, _, by cbv, by cbv, by cbv, by cbv⟩
  obtain ⟨d', hparse', s₁', hset', hlocations', htext', htable'⟩ :
      ∃ d', parse "aliases:\n    co: mr checkout\n" = .ok d' ∧
        ∃ s₁', FileStore.set ⟨d', plainLocations, {}⟩ "" "editor" "vim" = (.ok (), s₁') ∧
          s₁'.locations = plainLocations ∧ s₁'.mainText = "editor: vim\n" ∧
          s₁'.table? .aliases = some ⟨[("co", "mr checkout")]⟩ :=
    ⟨_, by cbv, _, by cbv, by cbv, by cbv, by cbv⟩
  have hload := run_load_mainOnly (isLegacy_hostlessReader _) hparse {}
  have hload' := run_load_mainOnly (isLegacy_hostlessReader _) hparse' {}
  refine ⟨⟨_, s₁', _, hload', hset', ?_, hload, htable', htable⟩,
    _, s₁, hload, hset, ?_, hvalue, hstored⟩
  · rw [run_write_mainOnly _ hlocations', htext']
  · rw [run_write_mainOnly _ hlocations, htext]

end LayeredConfig.FileStore
