import LayeredConfig.Proofs.Store.Calls
import LayeredConfig.Proofs.Store.SecondLoad

/-!
# Changes of a scope are written through

A change of an open scope that succeeds has written the file of that scope. The next load finds the
table that the scope has in memory, and no other file has changed.
-/

namespace LayeredConfig

/-! ## Mappings that can be files -/

namespace Tree

variable {t t' u v : Tree} {o : Option Tree} {key name text : String}

theorem Writable.isFile (h : t.Writable) (hmap : t.isMapping = true) : t.IsFile := by
  cases h with
  | mapping hc hkeys hvalues => exact .mapping hc.toLegible hkeys hvalues
  | scalar => cases hmap
  | sequence => cases hmap

theorem IsFile.writable_of_lookup? (h : t.IsFile) (hlookup : t.lookup? key = some v) :
    v.Writable := by
  cases h with
  | mapping hc hkeys hvalues =>
    obtain ⟨entry, hfind, rfl⟩ := Option.map_eq_some_iff.1 hlookup
    exact hvalues entry (List.mem_of_find?_eq_some hfind)

/-- A mapping that is opened can be a file, if the value that it was made of could or could stand in
one. -/
theorem isFile_of_inside (ho : ∀ v, o = some v → v.IsFile ∨ v.Writable)
    (h : inside key .ok o = .ok u) : u.IsFile := by
  have hempty {c : Comments} (hc : c.Legible) : IsFile (.mapping c []) :=
    .mapping hc (List.forall_mem_nil _) (List.forall_mem_nil _)
  unfold inside at h
  split at h
  · obtain rfl := Except.ok.inj h
    exact hempty Comments.inner_none.toLegible
  · obtain rfl := Except.ok.inj h
    rcases ho _ rfl with hfile | hwritable
    · exact hfile
    · exact hwritable.isFile rfl
  · obtain rfl := Except.ok.inj h
    rcases ho _ rfl with hfile | hwritable
    · cases hfile
    · exact hempty hwritable.comments.toLegible
  · cases h

theorem IsFile.update_storeText (h : u.IsFile) (hu : u.update key (storeText key text) = .ok v) :
    v.IsFile := by
  obtain ⟨d, entry, hset, hd⟩ := (FileStore.hangs_ofFile u).setText hu
  obtain ⟨isKey, horderly⟩ := (Document.orderly_ofFile h).setText hset
  obtain ⟨w, htree, hfile⟩ := horderly.exists_tree
  rw [hd.tree?] at htree
  exact Option.some.inj htree ▸ hfile

theorem IsFile.remove? (h : u.IsFile) (hu : u.remove? key = some v) : v.IsFile := by
  obtain ⟨d, entry, hremove, hd⟩ := (FileStore.hangs_ofFile u).removeEntry hu
  obtain ⟨w, htree, hfile⟩ := ((Document.orderly_ofFile h).removeEntry hremove).exists_tree
  rw [hd.tree?] at htree
  exact Option.some.inj htree ▸ hfile

end Tree

namespace FileStore

open LayeredConfig.Tree
open LayeredConfig.Document
open LayeredConfig.FileProgram

variable {s s' s₁ s₂ : FileStore} {t t' u u' : Tree} {scope : Scope} {operation : ScopeOperation}
  {map : NodeId} {findShell : ShellFinder} {d d' : Disk}

/-! ## What was changed -/

theorem Edits.isFile (h : Edits scope operation u u') (hu : u.IsFile) : u'.IsFile := by
  cases h with
  | set h => exact hu.update_storeText h
  | delete h => exact hu.remove? h
  | write => exact hu

/-- The table of a changed mapping holds the value that was stored. -/
theorem Edits.lookup {name value : String} (h : Edits scope (.set name value) u u') :
    u'.texts.lookup (scope.normalize name) = some value := by
  cases h with
  | set h =>
    obtain ⟨v, hv, hlookup⟩ := lookup?_update h
    exact lookup_texts hlookup (storeText_eq_ok hv).1

/-- An operation of a scope that is done has left a document and written its mapping. -/
theorem run_scope_eq_done
    (h : (s.perform findShell (.scope scope operation)).run d = ((.ok .done, s'), d')) :
    ∃ s₁ map document, s.openScope scope = .ok (s₁, map) ∧
      Leaves scope s₁.document map operation document ∧ s' = { s₁ with document := document } ∧
      (Access.writeText (s'.scopeFile scope) (document.encode map [])).run.run d = (.ok (), d') := by
  rw [perform] at h
  split at h
  · cases h
  · rename_i s₁ map hopen
    cases scopeCourse s₁ scope map operation with
    | get => cases h
    | all => cases h
    | refused _ hrefused =>
      rw [hrefused] at h
      cases h
    | @leaves _ document hleaves =>
      rw [performScope_of_leaves hleaves, performScope, run_bind] at h
      cases hwrite : (writeScope { s₁ with document := document } scope map).run.run d with
      | mk written d₁ =>
        rw [hwrite] at h
        cases written with
        | ok =>
          cases h
          exact ⟨s₁, map, document, hopen, hleaves, rfl, ofFiles_eq_ok hwrite⟩
        | error e => cases h

/-- What such an operation has made of the tree of the scope is what was written. -/
theorem written_of_run (ht : s.document.Holds t)
    (h : (s.perform findShell (.scope scope operation)).run d = ((.ok .done, s'), d')) :
    ∃ u u' t', inside scope.key .ok (t.lookup? scope.key) = .ok u ∧ Edits scope operation u u' ∧
      t.update scope.key (fun _ ↦ .ok u') = .ok t' ∧ s'.document.Holds t' ∧
      (Access.writeText (s.scopeFile scope) (u'.encode [])).run.run d = (.ok (), d') := by
  obtain ⟨s₁, map, document, hopen, hleaves, rfl, hwrite⟩ := run_scope_eq_done h
  obtain ⟨u, hopened, hlocations, -⟩ := opened_of_openScope ht hopen
  obtain ⟨places, hangs, hnodup, hlift⟩ := hopened.hangs
  obtain ⟨u', places', hedits, hbecomes⟩ := hleaves.becomes hangs hnodup
  obtain ⟨t', ht', hholds⟩ := hlift hbecomes
  refine ⟨u, u', t', hopened.opens .ok, hedits, ht', hholds, ?_⟩
  have hfile : ({ s₁ with document := document } : FileStore).scopeFile scope = s.scopeFile scope := by
    cases scope with
    | aliases => rw [scopeFile, scopeFile, hlocations]
    | localSettings => rw [scopeFile, scopeFile, hlocations]
  rw [← encode_of_treeAt? (hbecomes.hangs.treeAt? hbecomes.nodup), ← hfile]
  exact hwrite

/-! ## The file of a scope -/

variable {reader : Yaml.Reader} {locations : Locations} {environment : Environment}
  {disk disk₁ disk₂ : Disk} {part : Scope → Option Document} {document : Document} {path : Path}

def scopeDirectory (s : FileStore) : Scope → Path
  | .aliases => s.locations.configDirectory
  | .localSettings => s.locations.localDirectory

theorem exists_scopeFile_eq (s : FileStore) (scope : Scope) :
    ∃ name, Path.IsFileName name ∧ s.scopeFile scope = (s.scopeDirectory scope).join name := by
  cases scope with
  | aliases =>
    refine ⟨"aliases.yml", ⟨⟨by decide, by decide, by simp⟩, by decide, by decide⟩, ?_⟩
    rw [scopeFile, scopeDirectory, Locations.aliasesFile]
  | localSettings =>
    refine ⟨"config.yml", isFileName_mainFile, ?_⟩
    rw [scopeFile, scopeDirectory, Locations.localFile]

theorem Stored.isVacantOrFile {found : Option Document} (h : Stored d path found) :
    d.IsVacantOrFile path := by
  cases h with
  | missing h => exact .inl (read_of_readText_missing h)
  | found h _ =>
    obtain ⟨-, bytes, hread, -⟩ := Access.readText_eq_ok h
    exact .inr ⟨bytes, hread⟩

/-- Whatever hangs under the key of a scope could be a file, or stands in one. -/
theorem Overlay.isFile_or_writable {v : Tree}
    (h : Overlay t u fun scope ↦ part scope >>= Document.tree?) (hu : u.IsFile)
    (hparts : ∀ scope d, part scope = some d → ∃ text, parse text = .ok d)
    (hlookup : t.lookup? scope.key = some v) : v.IsFile ∨ v.Writable := by
  rw [h.lookup] at hlookup
  cases hpart : part scope with
  | none =>
    rw [hpart] at hlookup
    exact .inr (hu.writable_of_lookup? hlookup)
  | some d =>
    obtain ⟨text, hparse⟩ := hparts scope d hpart
    obtain ⟨w, hw, hfile⟩ := holds_of_parse hparse
    rw [hpart, Option.bind_eq_bind, Option.bind_some, hw.tree?] at hlookup
    obtain rfl := Option.some.inj hlookup
    exact .inl hfile

theorem tableOf_of_isMapping (h : u.isMapping = true) : tableOf scope (some u) = some ⟨u.texts⟩ := by
  rw [tableOf, inside_of_isMapping h]
  rfl

/-- Expanding an invocation needs the table of the aliases only. -/
theorem expand_of_table {table : Table} (h : s.table? .aliases = some table)
    (findShell : ShellFinder) (invocation : List String) :
    Prod.fst <$> s.expand findShell invocation =
      (·.mapError .expansion) <$> Alias.expandWith table findShell invocation := by
  unfold table? at h
  split at h
  · rename_i s₁ map hopen
    obtain rfl := Option.some.inj h
    rw [expand, hopen]
    simp
  · cases h

/-! ## The next load -/

/-- An operation of a scope that is done has written the mapping of the scope, as it is in memory,
to the file of that scope. -/
theorem exists_written (ht : s.document.Holds t)
    (hopenable : ∀ v, t.lookup? scope.key = some v → v.IsFile ∨ v.Writable)
    (hvacant : disk₁.IsVacantOrFile (s.scopeFile scope)) (htree : disk₁.IsTree)
    (hworking : disk₁.HasWorkingDirectory) (hroom : disk₁.CanHold (s.scopeDirectory scope))
    (hcall : (s.perform findShell (.scope scope operation)).run disk₁ = ((.ok .done, s'), disk₂)) :
    ∃ w : Tree, w.IsFile ∧ s'.table? scope = some ⟨w.texts⟩ ∧
      (∀ name value, operation = .set name value →
        w.texts.lookup (scope.normalize name) = some value) ∧
      Access.Written disk₁ disk₂ (s.scopeFile scope) (w.encode []) := by
  obtain ⟨u, w, t', hopened, hedits, ht', hholds, hwrite⟩ := written_of_run ht hcall
  have hw := hedits.isFile (isFile_of_inside hopenable hopened)
  obtain ⟨v, hv, hlookup⟩ := lookup?_update ht'
  obtain rfl := Except.ok.inj hv
  refine ⟨w, hw, ?_, ?_, ?_⟩
  · rw [table?_eq hholds (isMapping_update ht'), hlookup, tableOf_of_isMapping (isMapping_of_isFile hw)]
  · rintro name value rfl
    exact hedits.lookup
  · obtain ⟨name, hname, hpath⟩ := exists_scopeFile_eq s scope
    rw [hpath] at hwrite hvacant ⊢
    exact Access.written_of_writeText htree hworking hname hvacant hroom hwrite

/-! ## The next load -/

/-- Behind a write of the file of a scope, the scopes are found with the document that was written. -/
theorem stored_of_written {contents : String} {found : Document}
    (h : Access.Written disk₁ disk₂ (s.scopeFile scope) contents) (hparse : parse contents = .ok found)
    (hother : ∀ other, other ≠ scope → disk₁.Separate (s.scopeFile scope) (s.scopeFile other))
    (hstored : ∀ other, Stored disk₁ (s.scopeFile other) (part other)) (other : Scope) :
    Stored disk₂ (s.scopeFile other) (Function.update part scope (some found) other) := by
  by_cases heq : other = scope
  · subst heq
    rw [Function.update_self]
    exact .found h.read hparse
  · rw [Function.update_of_ne heq]
    exact (hstored other).congr (h.others _ (hother other heq)).1

/-- A scope that has a file has the table of that file when it is loaded. -/
theorem table?_assembled {found : Document} {m : Tree} (hu : document.Holds u) (hfile : u.IsFile)
    (hparts : ∀ scope d, part scope = some d → ∃ text, parse text = .ok d)
    (hpart : part scope = some found) (hm : found.Holds m) (hmap : m.isMapping = true) :
    (assembled document locations environment part).table? scope = some ⟨m.texts⟩ := by
  obtain ⟨t, ht, hoverlay⟩ := holds_assembled hu (isMapping_of_isFile hfile) hparts locations environment
  rw [table?_eq ht hoverlay.isMapping, hoverlay.lookup, hpart, Option.bind_eq_bind, Option.bind_some,
    hm.tree?, Option.some_or, tableOf_of_isMapping hmap]

/-- A change of a scope that is done survives: the next load succeeds and has the table that is in
memory, in which a value that was set is found, and expands invocations as before. No other file is
changed. -/
theorem scope_survives_load (hload : (load reader locations environment).run.run disk = (.ok s, disk₁))
    (hcall : (s.perform findShell (.scope scope operation)).run disk₁ = ((.ok .done, s'), disk₂))
    (htree : disk₁.IsTree) (hworking : disk₁.HasWorkingDirectory)
    (hroom : disk₁.CanHold (s.scopeDirectory scope))
    (hmain : disk₁.Separate (s.scopeFile scope) locations.mainFile)
    (hother : ∀ other, other ≠ scope → disk₁.Separate (s.scopeFile scope) (s.scopeFile other))
    (hlegacy : ∀ text, ((Access.readText locations.mainFile).run.run disk₁).1 = .ok text →
      Legacy.isLegacy reader text = false) :
    ∃ s₂ table, (load reader locations environment).run.run disk₂ = (.ok s₂, disk₂) ∧
      s'.table? scope = some table ∧ s₂.table? scope = some table ∧
      (∀ name value, operation = .set name value →
        table.get? (scope.normalize name) = some value) ∧
      (scope = .aliases → ∀ findShell invocation,
        Prod.fst <$> s₂.expand findShell invocation = Prod.fst <$> s'.expand findShell invocation) ∧
      disk₂.read locations.mainFile = disk₁.read locations.mainFile ∧
      ∀ other, other ≠ scope → disk₂.read (s.scopeFile other) = disk₁.read (s.scopeFile other) := by
  obtain ⟨text, document, part, hread, hparse, hstored, rfl⟩ := load_eq_ok hload
  have hparts : ∀ scope d, part scope = some d → ∃ text, parse text = .ok d :=
    fun scope ↦ exists_parse_of_stored (hstored scope)
  obtain ⟨u, hu, hfile⟩ := holds_of_parse hparse
  obtain ⟨t, ht, hoverlay⟩ := holds_assembled hu (isMapping_of_isFile hfile) hparts locations environment
  simp only [← scopeFile_assembled document locations environment part] at hstored
  -- what was written, and what is read from it again
  obtain ⟨w, hw, htable, hvalue, hwritten⟩ := exists_written ht
    (fun v ↦ hoverlay.isFile_or_writable hfile hparts) (hstored scope).isVacantOrFile htree hworking
    hroom hcall
  obtain ⟨found, m, hreparse, hm, hmap, hbare⟩ := exists_reread hw
  have hstored₂ := stored_of_written hwritten hreparse hother hstored
  obtain ⟨hmainText, hmainRead⟩ := hwritten.others _ hmain
  simp only [scopeFile_assembled] at hstored₂
  -- the store of the next load
  have hload₂ : (load reader locations environment).run.run disk₂ = (.ok (assembled document locations
      environment (Function.update part scope (some found))), disk₂) :=
    run_load (hmainText.trans hread) (hlegacy text hread) hparse hstored₂
  have htable₂ : (assembled document locations environment
      (Function.update part scope (some found))).table? scope = some ⟨w.texts⟩ := by
    rw [← texts_of_bare hbare]
    exact table?_assembled hu hfile (fun other ↦ exists_parse_of_stored (hstored₂ other))
      (Function.update_self scope _ part) hm hmap
  refine ⟨_, _, hload₂, htable, htable₂, hvalue, ?_, hmainRead, ?_⟩
  · rintro rfl findShell invocation
    rw [expand_of_table htable₂, expand_of_table htable]
  · exact fun other hne ↦ (hwritten.others _ (hother other hne)).2

/-! ## An alias beside a main file -/

theorem run_writeScope {written : Except FileFailure Unit}
    (h : (Access.writeText (s.scopeFile scope) (s.document.encode map [])).run.run disk =
      (written, disk₁)) :
    (s.writeScope scope map).run.run disk = (written.mapError .file, disk₁) := by
  rw [writeScope, run_ofFiles, h]

/-- A value is set in a scope that can be opened, and the call ends as the writing of its file does. -/
theorem run_scopeSet {name value : String} {entry : Document.Entry} {written : Except ConfigError Unit}
    (hopen : s.openScope scope = .ok (s₁, map))
    (hset : s₁.document.setText map (scope.normalize name) value = .ok (document, entry))
    (hwrite : (writeScope { s₁ with document := document } scope map).run.run disk = (written, disk₁)) :
    (s.perform findShell (.scope scope (.set name value))).run disk =
      ((Result.done written, { s₁ with document := document }), disk₁) := by
  rw [perform, hopen]
  dsimp only
  rw [performScope, run_bind, scopeSet, hset]
  dsimp only
  rw [run_bind, hwrite]
  rfl

section Aliases

variable {text : String}

theorem namesEntry_aliasesFile (h : ∃ left, disk.Arrives Disk.maxLinks [] ["cfg"] left ["cfg"]) :
    disk.NamesEntry plainLocations.configDirectory "aliases.yml" ["cfg"] :=
  ⟨⟨by decide, by decide, by simp⟩, by rfl, by decide, h⟩

/-- A file for aliases is made in the directory of the main file. -/
theorem run_writeText_aliasesFile (h : ∃ left, disk.Arrives Disk.maxLinks [] ["cfg"] left ["cfg"])
    (hfree : disk.node? ["cfg", "aliases.yml"] = none)
    (hfresh : disk.freshName ["cfg"] = Disk.temporaryName 0) (contents : String) :
    (Access.writeText plainLocations.aliasesFile contents).run.run disk =
      (.ok (), disk.replace ["cfg"] "aliases.yml" contents.toUTF8) := by
  have hdirectory : (plainLocations.configDirectory.join "aliases.yml").directory = ⟨"/cfg"⟩ := by
    decide +kernel
  apply Access.run_writeText (namesEntry_aliasesFile h) (Disk.replaceable_of_free hfree (by decide))
  rw [hfresh, hdirectory]
  exact ⟨Disk.isName_temporaryName 0, by rfl, by decide, h⟩

theorem separate_aliasesFile_mainOnly (text : String) :
    (mainOnly text).Separate plainLocations.aliasesFile plainLocations.mainFile ∧
      (mainOnly text).Separate plainLocations.aliasesFile plainLocations.localFile := by
  obtain ⟨hmain, haliases, hlocal⟩ := touched_mainOnly text
  have hentry {entry : Disk.EntryPlace}
      (h : (mainOnly text).entryPlace plainLocations.aliasesFile = .ok entry) :
      entry.location = ["cfg", "aliases.yml"] := by
    rw [show plainLocations.aliasesFile = plainLocations.configDirectory.join "aliases.yml" from rfl,
      (namesEntry_aliasesFile (arrives_mainOnly text)).entryPlace] at h
    obtain rfl := Except.ok.inj h
    rfl
  refine ⟨⟨fun entry h ↦ ?_, ?_⟩, ⟨fun entry h ↦ ?_, ?_⟩⟩
  · rw [hentry h, hmain]
    decide
  · rw [hmain, haliases]
    simp [mainOnly, Disk.node?, List.lookup]
  · rw [hentry h, hlocal]
    decide
  · rw [hlocal, haliases]
    simp

theorem scope_survives_load_alias :
    ∃ s s' disk₂, (load tokenReader plainLocations {}).run.run (mainOnly "editor: vim\n") =
        (.ok s, mainOnly "editor: vim\n") ∧
      (s.perform (pure (.error .notFound)) (.scope .aliases (.set "co" "mr checkout"))).run
        (mainOnly "editor: vim\n") = ((.ok .done, s'), disk₂) ∧
      ∃ s₂ table, (load tokenReader plainLocations {}).run.run disk₂ = (.ok s₂, disk₂) ∧
        s'.table? .aliases = some table ∧ s₂.table? .aliases = some table ∧
        table.get? "co" = some "mr checkout" ∧
        (∀ findShell invocation,
          Prod.fst <$> s₂.expand findShell invocation = Prod.fst <$> s'.expand findShell invocation) ∧
        disk₂.read plainLocations.mainFile =
          (mainOnly "editor: vim\n").read plainLocations.mainFile := by
  obtain ⟨d, hparse, s₁, map, hopen, hlocations, d', entry, hset⟩ :
      ∃ d, parse "editor: vim\n" = .ok d ∧
        ∃ s₁ map, FileStore.openScope ⟨d, plainLocations, {}⟩ .aliases = .ok (s₁, map) ∧
          s₁.locations = plainLocations ∧
          ∃ d' entry, s₁.document.setText map (Scope.aliases.normalize "co") "mr checkout" =
            .ok (d', entry) :=
    ⟨_, by cbv, _, _, by cbv, by cbv, _, _, by cbv⟩
  have hload := run_load_mainOnly (isLegacy_tokenReader "editor: vim\n") hparse {}
  have hwrite := run_writeText_aliasesFile (arrives_mainOnly "editor: vim\n") (by cbv) (by cbv)
    (d'.encode map [])
  rw [← hlocations] at hwrite
  have hcall : (perform _ (pure (.error .notFound)) (.scope .aliases (.set "co" "mr checkout"))).run _ =
      _ := run_scopeSet hopen hset (run_writeScope hwrite)
  refine ⟨_, _, _, hload, hcall, ?_⟩
  obtain ⟨s₂, table, hload₂, htable, htable₂, hvalue, hexpand, hread, -⟩ :=
    scope_survives_load hload hcall (isTree_mainOnly _) (hasWorkingDirectory_mainOnly _)
      (canHold_mainOnly _) (separate_aliasesFile_mainOnly _).1
      (fun other hne ↦ by
        cases other with
        | aliases => exact absurd rfl hne
        | localSettings => exact (separate_aliasesFile_mainOnly _).2)
      fun text _ ↦ isLegacy_tokenReader text
  exact ⟨s₂, table, hload₂, htable, htable₂, hvalue _ _ rfl, hexpand rfl, hread⟩

/-! ## An alias behind the carrying over of an old file -/

theorem exists_setText_of_lookup?_eq_none (ht : s.document.Holds t) (hmap : t.isMapping = true)
    (hnone : t.lookup? scope.key = none) (name value : String) :
    ∃ s₁ map d entry, s.openScope scope = .ok (s₁, map) ∧ s₁.locations = s.locations ∧
      s₁.document.setText map (scope.normalize name) value = .ok (d, entry) := by
  have hinside : inside scope.key .ok (t.lookup? scope.key) = .ok (.mapping {} []) := by
    rw [hnone]
    rfl
  obtain ⟨t₁, ht₁⟩ := exists_update hmap hinside
  obtain ⟨s₁, map, hopen⟩ := exists_openScope ht ht₁
  obtain ⟨u, hopened, hlocations, -⟩ := opened_of_openScope ht hopen
  obtain rfl := Except.ok.inj ((hopened.opens .ok).symm.trans hinside)
  have hstore : storeText (scope.normalize name) value
      ((Tree.mapping {} []).lookup? (scope.normalize name)) = .ok (newScalar value) := rfl
  obtain ⟨u', hu'⟩ := exists_update rfl hstore
  obtain ⟨d, entry, hset⟩ := hopened.exists_setText hu'
  exact ⟨s₁, map, d, entry, hopen, hlocations, hset⟩

/-- No aliases are found behind the carrying over of an old file. -/
theorem lookup?_aliases_of_carriedOver {settings : List (String × Yaml.Value)} {s₀ : FileStore}
    (hconvert : Legacy.convert settings plainLocations environment = .ok s₀)
    (hload : (load reader plainLocations environment).run.run disk =
      (.ok s, carriedOver text s₀.mainText)) :
    s.locations = plainLocations ∧ ∃ t, s.document.Holds t ∧ t.isMapping = true ∧
      t.lookup? Scope.aliases.key = none := by
  obtain ⟨t₀, ht₀, hfile, -⟩ := Legacy.holds_convert hconvert
  obtain ⟨d, m, hparse, hm, hmap, hbare⟩ :=
    exists_reread_mainText ht₀ (isFile_without hfile scopeKeys)
  obtain ⟨text', d', part, hread, hparse', hstored, rfl⟩ := load_eq_ok hload
  obtain rfl := Except.ok.inj ((readText_carriedOver text s₀.mainText).symm.trans hread)
  obtain rfl := Except.ok.inj (hparse.symm.trans hparse')
  obtain ⟨t, ht, hoverlay⟩ := holds_assembled hm hmap
    (fun scope ↦ exists_parse_of_stored (hstored scope)) plainLocations environment
  have hpart : part .aliases = none :=
    (hstored .aliases).unique (stored_carriedOver text s₀.mainText rfl .aliases) |>.symm
  refine ⟨locations_assembled .., t, ht, hoverlay.isMapping, ?_⟩
  rw [lookup?_overlay hbare hoverlay, hpart]
  rfl

theorem arrives_carriedOver (text contents : String) :
    ∃ left, (carriedOver text contents).Arrives Disk.maxLinks [] ["cfg"] left ["cfg"] := by
  have hwalk : (carriedOver text contents).walk true Disk.maxLinks [] ["cfg"] =
      .ok (.found ["cfg"] .directory) := by
    cbv
  exact Disk.arrives_of_walk hwalk

/-- Such a disk with a file for aliases. -/
def withAliases (text contents aliases : String) : Disk where
  nodes := (carriedOver text contents).nodes ++ [(["cfg", "aliases.yml"], .file aliases.toUTF8 false)]

theorem run_writeText_aliases_carriedOver (text contents aliases : String) :
    (Access.writeText plainLocations.aliasesFile aliases).run.run (carriedOver text contents) =
      (.ok (), withAliases text contents aliases) := by
  have hreplace : (carriedOver text contents).replace ["cfg"] "aliases.yml" aliases.toUTF8 =
      withAliases text contents aliases := by
    cbv
  rw [← hreplace]
  exact run_writeText_aliasesFile (arrives_carriedOver text contents) (by cbv) (by cbv) aliases

theorem readText_withAliases (text contents aliases : String) :
    ((Access.readText plainLocations.mainFile).run.run (withAliases text contents aliases)).1 =
      .ok contents :=
  readText_mainFile_of_walk (by cbv) (by cbv)

theorem kind_backup_withAliases (text contents aliases : String) :
    (withAliases text contents aliases).kind false plainLocations.backupFile = .ok (.file false) :=
  kind_backup_of_walk (by cbv)

/-- An alias is stored behind the carrying over of an old file whose new text is taken for an old one:
the call is done, and the next load fails. -/
theorem load_behind_alias_fails :
    ∃ s disk₁ s' disk₂ fault, (load breakingReader plainLocations {}).run.run (mainOnly brokenText) =
        (.ok s, disk₁) ∧
      (s.perform (pure (.error .notFound)) (.scope .aliases (.set "co" "mr checkout"))).run disk₁ =
        ((.ok .done, s'), disk₂) ∧
      (load breakingReader plainLocations {}).run.run disk₂ =
        (.error (.migration plainLocations.mainFile fault), disk₂) := by
  obtain ⟨hlegacy, settings, s₀, hsettings, hconvert⟩ := answers_breakingReader brokenText
  obtain ⟨s, hload⟩ := exists_load_mainOnly hlegacy hsettings hconvert
  obtain ⟨hlocations, t, ht, hmap, hnone⟩ := lookup?_aliases_of_carriedOver hconvert hload
  obtain ⟨s₁, map, d, entry, hopen, hlocations₁, hset⟩ :=
    exists_setText_of_lookup?_eq_none ht hmap hnone "co" "mr checkout"
  have hwrite := run_writeText_aliases_carriedOver brokenText s₀.mainText (d.encode map [])
  rw [← hlocations, ← hlocations₁] at hwrite
  have hcall : (perform _ (pure (.error .notFound)) (.scope .aliases (.set "co" "mr checkout"))).run _ =
      _ := run_scopeSet hopen hset (run_writeScope hwrite)
  obtain ⟨hlegacy₁, settings₁, s₂, hsettings₁, hconvert₁⟩ := answers_breakingReader s₀.mainText
  exact ⟨s, _, _, _, _, hload, hcall, run_load_of_backup (readText_withAliases _ _ _) hlegacy₁
    hsettings₁ hconvert₁ (kind_backup_withAliases _ _ _)⟩

end Aliases

end FileStore

end LayeredConfig
