import LayeredConfig.Proofs.Files.AllOrNothing
import LayeredConfig.Proofs.Store.History
import LayeredConfig.Proofs.Store.WriteThrough

/-!
# Edits of a scope that fail

An edit of a scope changes the mapping of the scope first and writes its file then. When it fails, no
file has changed. When it fails before the file is written, nothing has changed in the store either. When
the file cannot be written, the edit stays in the store, and shows in nothing but the edited name.
-/

namespace LayeredConfig

namespace Tree

variable {t t' u u' v : Tree} {f : Change} {key name other text : String}
  {entries entries' : List (Tree × Tree)}

/-! ## Other names of a mapping -/

/-- Two mappings that show the same under all names but one. -/
structure SameBut (name : String) (u u' : Tree) : Prop where
  lookup : ∀ other, other ≠ name → u'.lookup? other = u.lookup? other
  texts : ∀ other, other ≠ name → u'.texts.lookup other = u.texts.lookup other

theorem SameBut.refl (name : String) (u : Tree) : SameBut name u u :=
  ⟨fun _ _ ↦ rfl, fun _ _ ↦ rfl⟩

/-- The text that an entry has under a key. -/
def entryText? (key : String) (entry : Tree × Tree) : Option String :=
  textUnder? (fun entry ↦ entry.1.text?) (fun entry ↦ entry.2.text?) key entry

theorem entryText?_of_hasKey {entry : Tree × Tree} (h : hasKey name entry = true)
    (hne : other ≠ name) : entryText? other entry = none := by
  apply textUnder?_of_ne
  rw [hasKey_iff.1 h]
  exact fun heq ↦ hne (Option.some.inj heq).symm

theorem findSome?_updateEntries (h : updateEntries name f entries = .ok entries')
    (hne : other ≠ name) :
    entries'.findSome? (entryText? other) = entries.findSome? (entryText? other) := by
  induction entries generalizing entries' with
  | nil =>
    obtain ⟨v, -, h⟩ := bind_eq_ok_iff.1 h
    obtain rfl := Except.ok.inj h
    have hnew : hasKey name (newScalar name, v) = true := hasKey_iff.2 rfl
    rw [List.findSome?_cons, entryText?_of_hasKey hnew hne]
  | cons entry rest ih =>
    rw [updateEntries] at h
    split at h
    · rename_i hentry
      obtain ⟨v, -, h⟩ := bind_eq_ok_iff.1 h
      obtain rfl := Except.ok.inj h
      have hchanged : hasKey name (entry.1, v) = true := hentry
      rw [List.findSome?_cons, List.findSome?_cons, entryText?_of_hasKey hentry hne,
        entryText?_of_hasKey hchanged hne]
    · obtain ⟨rest', hrest, h⟩ := bind_eq_ok_iff.1 h
      obtain rfl := Except.ok.inj h
      rw [List.findSome?_cons, List.findSome?_cons, ih hrest]

theorem findSome?_eraseP (entries : List (Tree × Tree)) (hne : other ≠ name) :
    (entries.eraseP (hasKey name)).findSome? (entryText? other) =
      entries.findSome? (entryText? other) := by
  induction entries with
  | nil => rfl
  | cons entry rest ih =>
    by_cases hentry : hasKey name entry = true
    · rw [List.eraseP_cons_of_pos hentry, List.findSome?_cons, entryText?_of_hasKey hentry hne]
    · rw [List.eraseP_cons_of_neg hentry, List.findSome?_cons, List.findSome?_cons, ih]

theorem sameBut_update (h : u.update name f = .ok u') : SameBut name u u' := by
  refine ⟨fun other hne ↦ lookup?_update_of_ne h hne, fun other hne ↦ ?_⟩
  obtain ⟨c, entries, entries', rfl, hentries, rfl⟩ := update_eq_ok_iff.1 h
  rw [lookup_texts_eq, lookup_texts_eq]
  exact findSome?_updateEntries hentries hne

theorem sameBut_remove? (h : u.remove? name = some u') : SameBut name u u' := by
  refine ⟨fun other hne ↦ lookup?_remove?_of_ne h hne, fun other hne ↦ ?_⟩
  obtain ⟨c, entries, rfl, -, rfl⟩ := remove?_eq_some_iff.1 h
  rw [lookup_texts_eq, lookup_texts_eq]
  exact findSome?_eraseP entries hne

theorem SameBut.valueAt?_eq (h : SameBut name u u') (hne : other ≠ name) (path : List String) :
    valueAt? (other :: path) u' = valueAt? (other :: path) u := by
  rw [valueAt?, valueAt?, h.lookup other hne]

/-! ## What a key is opened as -/

/-- The mapping that the value under a key is opened as. -/
def opened (t : Tree) (key : String) : Except ShapeError Tree :=
  if t.isMapping then inside key .ok (t.lookup? key) else .error ⟨key, .mapping⟩

theorem isMapping_of_update (h : t.update key f = .ok t') : t.isMapping = true := by
  obtain ⟨c, entries, entries', rfl, -, -⟩ := update_eq_ok_iff.1 h
  rfl

theorem opened_eq (h : t.isMapping = true) (key : String) :
    t.opened key = inside key .ok (t.lookup? key) :=
  if_pos h

/-- A mapping that was put under a key is opened as it is, and other keys as before. -/
theorem opened_update (h : t.update key (fun _ ↦ .ok u) = .ok t') (hu : u.isMapping = true) :
    t'.opened key = .ok u ∧ ∀ other, other ≠ key → t'.opened other = t.opened other := by
  obtain ⟨v, hv, hlookup⟩ := lookup?_update h
  obtain rfl := Except.ok.inj hv
  refine ⟨?_, fun other hne ↦ ?_⟩
  · rw [opened_eq (isMapping_update h), hlookup, inside_of_isMapping hu]
  · rw [opened_eq (isMapping_update h), opened_eq (isMapping_of_update h), lookup?_update_of_ne h hne]

theorem isMapping_of_inside {o : Option Tree} (h : inside key .ok o = .ok u) : u.isMapping = true := by
  obtain ⟨v, hmap, hv, -, -⟩ := inside_eq_ok h
  exact Except.ok.inj hv ▸ hmap

/-- Opening a key changes nothing about what it and others are opened as. -/
theorem opened_open (h : t.update key (inside key .ok) = .ok t') (other : String) :
    t'.opened other = t.opened other := by
  obtain ⟨u, hu, hlookup⟩ := lookup?_update h
  have hmap := isMapping_of_inside hu
  rw [opened_eq (isMapping_update h), opened_eq (isMapping_of_update h)]
  by_cases heq : other = key
  · rw [heq, hlookup, inside_of_isMapping hmap, hu]
  · rw [lookup?_update_of_ne h heq]

end Tree

/-! ## Edits and lookups -/

/-- The operations that change what a scope holds under a name. -/
def ScopeOperation.IsEdit (name : String) : ScopeOperation → Prop
  | .set other _ => other = name
  | .delete other => other = name
  | _ => False

namespace Operation

/-- The operations that only tell what a store holds. -/
def IsLookup : Operation → Prop
  | .getWithSource _ _ => True
  | .scope _ (.get _) => True
  | .scope _ .all => True
  | _ => False

/-- The lookups that ask for a name of a scope. The local settings stand for all hosts, too. -/
def AsksFor (scope : Scope) (name : String) : Operation → Prop
  | .getWithSource _ key => scope = .localSettings ∧ Key.canonical key = Key.canonical name
  | .scope other (.get asked) => other = scope ∧ scope.normalize asked = scope.normalize name
  | .scope other .all => other = scope
  | _ => False

end Operation

namespace FileStore

open LayeredConfig.Tree
open LayeredConfig.Document
open LayeredConfig.FileProgram

variable {s s' s₁ : FileStore} {t t' u u' : Tree} {scope : Scope} {name value host key : String}
  {map : NodeId} {findShell : ShellFinder} {operation : ScopeOperation} {lookup : Operation}

theorem Edits.sameBut (h : Edits scope operation u u') (hedit : operation.IsEdit name) :
    SameBut (scope.normalize name) u u' := by
  cases h with
  | set h =>
    obtain rfl := hedit
    exact sameBut_update h
  | delete h =>
    obtain rfl := hedit
    exact sameBut_remove? h
  | write => exact .refl _ _

/-! ## What lookups answer -/

theorem openScope_cases (h : s.document.Holds t) (scope : Scope) :
    (∃ e, s.openScope scope = .error e ∧ t.opened scope.key = .error e) ∨
      ∃ s₁ map u places, s.openScope scope = .ok (s₁, map) ∧ t.opened scope.key = .ok u ∧
        Hangs s₁.document u map places ∧ places.Nodup := by
  cases hopen : s.openScope scope with
  | error e =>
    obtain ⟨places, hangs, hnodup⟩ := h
    have herror := hangs.update_of_ensureMapping_error hnodup (openScope_eq_error hopen) .ok
    refine .inl ⟨e, rfl, ?_⟩
    unfold opened
    split
    · rename_i hmap
      cases hinside : inside scope.key .ok (t.lookup? scope.key) with
      | error e' =>
        rw [update_eq_error hmap hinside] at herror
        rw [Except.error.inj herror]
      | ok v =>
        obtain ⟨t', ht'⟩ := exists_update hmap hinside
        rw [ht'] at herror
        cases herror
    · rename_i hmap
      rw [update_of_not_isMapping (Bool.eq_false_iff.2 hmap)] at herror
      rw [Except.error.inj herror]
  | ok result =>
    obtain ⟨u, hopened, -⟩ := opened_of_openScope h hopen
    obtain ⟨t₁, ht₁, -⟩ := hopened.exists_opened
    obtain ⟨places, hangs, hnodup, -⟩ := hopened.hangs
    refine .inr ⟨_, _, u, places, rfl, ?_, hangs, hnodup⟩
    rw [opened_eq (isMapping_of_update ht₁), hopened.opens]

theorem perform_get (h : s.document.Holds t) (findShell : ShellFinder) (scope : Scope) (name : String) :
    Prod.fst <$> s.perform findShell (.scope scope (.get name)) =
      pure (Result.ofShape (fun u ↦ .found (valueAt? [scope.normalize name] u)) (t.opened scope.key)) := by
  rw [perform]
  obtain ⟨e, hopen, hopened⟩ | ⟨s₁, map, u, places, hopen, hopened, hangs, hnodup⟩ :=
    openScope_cases h scope
  · rw [hopen, hopened]
    rfl
  · rw [hopen, hopened]
    dsimp only
    rw [performScope, scopeGet?, hangs.get?_eq hnodup]
    rfl

theorem perform_all (h : s.document.Holds t) (findShell : ShellFinder) (scope : Scope) :
    Prod.fst <$> s.perform findShell (.scope scope .all) =
      pure (Result.ofShape (fun u ↦ .table ⟨u.texts⟩) (t.opened scope.key)) := by
  rw [perform]
  obtain ⟨e, hopen, hopened⟩ | ⟨s₁, map, u, places, hopen, hopened, hangs, -⟩ :=
    openScope_cases h scope
  · rw [hopen, hopened]
    rfl
  · rw [hopen, hopened]
    dsimp only
    rw [performScope, scopeAll, hangs.snapshot_eq]
    rfl

theorem table?_of_opened (h : s.document.Holds t) (hopened : t.opened scope.key = .ok u) :
    s.table? scope = some ⟨u.texts⟩ := by
  obtain ⟨e, -, herror⟩ | ⟨s₁, map, v, places, hopen, hopened', hangs, -⟩ := openScope_cases h scope
  · rw [hopened] at herror
    cases herror
  · obtain rfl := Except.ok.inj (hopened.symm.trans hopened')
    rw [table?, hopen]
    dsimp only
    rw [scopeAll, hangs.snapshot_eq]

/-- The table of a scope is what is answered when all of it is asked for. -/
theorem perform_all_of_table? {table : Table} (h : s.table? scope = some table)
    (findShell : ShellFinder) :
    Prod.fst <$> s.perform findShell (.scope scope .all) = pure (.ok (.table table)) := by
  rw [table?] at h
  rw [perform]
  split at h
  · rename_i s₁ map hopen
    obtain rfl := Option.some.inj h
    rw [hopen]
    rfl
  · cases h

/-- The layers of a setting decide what is found and where. -/
theorem perform_getWithSource_congr (ht : s.document.Holds t) (ht' : s'.document.Holds t')
    (hlocations : s'.locations = s.locations)
    (hhost : nonEmpty? (valueAt? ["hosts", host, Key.canonical key] t') =
      nonEmpty? (valueAt? ["hosts", host, Key.canonical key] t))
    (hlocal : nonEmpty? (valueAt? [Scope.localSettings.key, Key.canonical key] t') =
      nonEmpty? (valueAt? [Scope.localSettings.key, Key.canonical key] t))
    (hglobal : nonEmpty? (valueAt? [Key.canonical key] t') = nonEmpty? (valueAt? [Key.canonical key] t))
    (findShell : ShellFinder) :
    Prod.fst <$> s'.perform findShell (.getWithSource host key) =
      Prod.fst <$> s.perform findShell (.getWithSource host key) := by
  have hsame : s'.getWithSource host key = s.getWithSource host key := by
    apply getWithSource_congr hlocations
    · rw [hostValue?_eq ht', hostValue?_eq ht, hhost]
    · rw [localValue?_eq ht', localValue?_eq ht, hlocal]
    · rw [globalValue?_eq ht', globalValue?_eq ht, hglobal]
  rw [perform, perform, hsame]
  rfl

/-- A scope that was opened shows in no lookup. -/
theorem lookup_of_refused (ht : s.document.Holds t) (ht' : s'.document.Holds t')
    (hrefused : Refused t t') (hlocations : s'.locations = s.locations) (hlookup : lookup.IsLookup)
    (findShell : ShellFinder) :
    Prod.fst <$> s'.perform findShell lookup = Prod.fst <$> s.perform findShell lookup := by
  have hopened (key : String) : t'.opened key = t.opened key := by
    cases hrefused with
    | kept => rfl
    | opened scope h => exact opened_open h key
  unfold Operation.IsLookup at hlookup
  split at hlookup
  · exact perform_getWithSource_congr ht ht' hlocations (nonEmpty?_refused hrefused _ _)
      (nonEmpty?_refused hrefused _ _) (nonEmpty?_refused hrefused _ _) findShell
  · rw [perform_get ht', perform_get ht, hopened]
  · rw [perform_all ht', perform_all ht, hopened]
  · cases hlookup

/-- What was made of the mapping of a scope by an edit of a name. -/
structure Edited (t t' : Tree) (scope : Scope) (name : String) (u u' : Tree) : Prop where
  opened : t.opened scope.key = .ok u
  isMapping : u'.isMapping = true
  sameBut : SameBut (scope.normalize name) u u'
  update : t.update scope.key (fun _ ↦ .ok u') = .ok t'

namespace Edited

theorem opened_self (h : Edited t t' scope name u u') : t'.opened scope.key = .ok u' :=
  (opened_update h.update h.isMapping).1

theorem opened_other (h : Edited t t' scope name u u') {other : Scope} (hne : other ≠ scope) :
    t'.opened other.key = t.opened other.key :=
  (opened_update h.update h.isMapping).2 _ fun heq ↦ hne (key_injective heq)

/-- What the value under the key of the scope was opened from. -/
theorem inside_eq (h : Edited t t' scope name u u') :
    inside scope.key .ok (t.lookup? scope.key) = .ok u := by
  rw [← opened_eq (isMapping_of_update h.update), h.opened]

/-- At the top there is no text under the key of the scope, before and behind the edit. -/
theorem nonEmpty?_top (h : Edited t t' scope name u u') (key : String) :
    nonEmpty? (valueAt? [key] t') = nonEmpty? (valueAt? [key] t) := by
  by_cases heq : key = scope.key
  -- A mapping has no text, and what it was opened from had none or an empty one.
  · obtain ⟨v, -, -, hempty, -⟩ := inside_eq_ok h.inside_eq
    obtain ⟨w, hw, hlookup⟩ := lookup?_update h.update
    obtain rfl := Except.ok.inj hw
    have hnone : u'.text? = none := by
      have hmap := h.isMapping
      cases u' with
      | mapping => rfl
      | scalar => cases hmap
      | sequence => rfl
    rw [heq, valueAt?, valueAt?, hlookup]
    change nonEmpty? u'.text? = _
    rw [hnone]
    exact hempty.symm
  · rw [valueAt?_update_of_ne h.update heq]

theorem valueAt?_local (h : Edited t t' scope name u u')
    (hkey : ¬ (scope = .localSettings ∧ key = Key.canonical name)) :
    valueAt? [Scope.localSettings.key, key] t' = valueAt? [Scope.localSettings.key, key] t := by
  cases scope with
  | aliases => exact valueAt?_update_of_ne h.update (by decide)
  | localSettings =>
    obtain ⟨v, -, hv, -, hold⟩ := inside_eq_ok h.inside_eq
    obtain rfl := Except.ok.inj hv
    obtain ⟨w, hw, hlookup⟩ := lookup?_update h.update
    obtain rfl := Except.ok.inj hw
    have hne : key ≠ Scope.localSettings.normalize name := fun heq ↦ hkey ⟨rfl, heq⟩
    rw [valueAt?, valueAt?, hlookup, ← hold key []]
    exact h.sameBut.valueAt?_eq hne []

/-- An edit shows in no lookup that does not ask for its name. -/
theorem lookup_eq (h : Edited t t' scope name u u') (ht : s.document.Holds t)
    (ht' : s'.document.Holds t') (hlocations : s'.locations = s.locations)
    (hlookup : lookup.IsLookup) (hasks : ¬ lookup.AsksFor scope name) (findShell : ShellFinder) :
    Prod.fst <$> s'.perform findShell lookup = Prod.fst <$> s.perform findShell lookup := by
  unfold Operation.IsLookup at hlookup
  split at hlookup
  · refine perform_getWithSource_congr ht ht' hlocations ?_ ?_ (h.nonEmpty?_top _) findShell
    · rw [valueAt?_update_of_ne h.update (Ne.symm (key_ne_hosts scope))]
    · rw [h.valueAt?_local hasks]
  · rename_i other asked
    rw [perform_get ht', perform_get ht]
    by_cases heq : other = scope
    · subst heq
      have hne : other.normalize asked ≠ other.normalize name := fun heq ↦ hasks ⟨rfl, heq⟩
      have hvalue := h.sameBut.valueAt?_eq hne []
      rw [h.opened_self, h.opened]
      change pure (Except.ok (Answer.found _)) = pure (Except.ok (Answer.found _))
      rw [hvalue]
    · rw [h.opened_other heq]
  · rename_i other
    rw [perform_all ht', perform_all ht, h.opened_other hasks]
  · cases hlookup

end Edited

/-! ## A repository that cannot be made -/

/-- A disk with a main file, and in the place of the repository a link that leads nowhere. -/
def danglingRepository (text : String) : Disk where
  nodes := [(["cfg"], .directory), (["cfg", "config.yml"], .file text.toUTF8 false),
    (["repo"], .link ⟨"x"⟩)]

theorem isTree_danglingRepository (text : String) : (danglingRepository text).IsTree := by
  have hcfg : (danglingRepository text).HasDirectory ["cfg"] := Disk.HasDirectory.root.concat rfl
  apply Disk.isTree_of_nodes
  exact List.forall_mem_cons.2 ⟨.root, List.forall_mem_cons.2 ⟨hcfg, List.forall_mem_singleton.2 .root⟩⟩

theorem run_checkDirectory_danglingRepository (text : String) :
    (Access.checkDirectory ⟨"/repo"⟩).run.run (danglingRepository text) =
      (.ok (), danglingRepository text) := by
  have hancestors : (⟨"/repo"⟩ : Path).ancestors = [⟨"/repo"⟩, ⟨"/"⟩] := by decide +kernel
  have hrepo : (danglingRepository text).perform (.kind ⟨"/repo"⟩) =
      (.error .notFound, danglingRepository text) := by cbv
  have hroot : (danglingRepository text).perform (.kind ⟨"/"⟩) =
      (.ok .directory, danglingRepository text) := by cbv
  change (Access.checkDirectories (Path.mk "/repo").ancestors).run _ = _
  rw [hancestors, Access.checkDirectories, run_bind, run_call, hrepo]
  dsimp only
  rw [Access.checkDirectories, run_bind, run_call, hroot]
  rfl

/-- The link is not found, and still no directory can take its place. -/
theorem run_writeText_danglingRepository (text contents : String) :
    (Access.writeText plainLocations.localFile contents).run.run (danglingRepository text) =
      (.error (.failed .createDirectory ⟨"/repo"⟩ .alreadyExists), danglingRepository text) := by
  have hdirectory : plainLocations.localFile.directory = ⟨"/repo"⟩ := by decide +kernel
  obtain ⟨above, habove⟩ := Access.ancestors_eq ⟨"/repo"⟩
  have hrepo : (danglingRepository text).perform (.kind ⟨"/repo"⟩) =
      (.error .notFound, danglingRepository text) := by cbv
  have hcreate : (danglingRepository text).perform (.createDirectory ⟨"/repo"⟩) =
      (.error .alreadyExists, danglingRepository text) := by cbv
  have hcreated : (Access.createDirectories (Path.mk "/repo").ancestors).run (danglingRepository text) =
      (.error .alreadyExists, danglingRepository text) := by
    rw [habove, Access.createDirectories, if_neg (by decide), run_bind, run_call, hcreate]
    dsimp only
    rw [Access.isDirectory, run_bind, run_bind, run_call, hrepo]
    rfl
  rw [Access.writeText, hdirectory, run_bind_ok (run_checkDirectory_danglingRepository text),
    run_bind_ok (Access.run_lift hcreated)]
  rfl

theorem run_load_danglingRepository {reader : Yaml.Reader} {d : Document} {text : String}
    (hlegacy : Legacy.isLegacy reader text = false) (hparse : parse text = .ok d)
    (environment : Environment) :
    (load reader plainLocations environment).run.run (danglingRepository text) =
      (.ok ⟨d, plainLocations, environment⟩, danglingRepository text) := by
  have hcfg : (Access.checkDirectory ⟨"/cfg"⟩).run.run (danglingRepository text) =
      (.ok (), danglingRepository text) := by cbv
  have hparts := stored_none_of_walks (s := ⟨d, plainLocations, environment⟩) rfl hcfg (by cbv)
    (run_checkDirectory_danglingRepository text) (by cbv)
  have hload : (load reader plainLocations environment).run.run (danglingRepository text) =
      (.ok (assembled d plainLocations environment fun _ ↦ none), danglingRepository text) :=
    run_load (readText_mainFile_of_walk hcfg (by cbv)) hlegacy hparse hparts
  exact hload

/-- A local setting is refused for want of its directory, when the store already holds it. -/
theorem exists_failed_set :
    ∃ s s', (load tokenReader plainLocations {}).run.run (danglingRepository "editor: vim\n") =
        (.ok s, danglingRepository "editor: vim\n") ∧
      (∀ findShell, (s.perform findShell (.scope .localSettings (.set "browser" "firefox"))).run
          (danglingRepository "editor: vim\n") =
        ((.error (.config (.file (.failed .createDirectory ⟨"/repo"⟩ .alreadyExists))), s'),
          danglingRepository "editor: vim\n")) ∧
      s.table? .localSettings = some ⟨[]⟩ ∧ s'.table? .localSettings = some ⟨[("browser", "firefox")]⟩ := by
  obtain ⟨d, hparse, hbefore, s₁, map, hopen, hlocations, d', entry, hset, hafter⟩ :
      ∃ d, parse "editor: vim\n" = .ok d ∧
        table? ⟨d, plainLocations, {}⟩ .localSettings = some ⟨[]⟩ ∧
        ∃ s₁ map, FileStore.openScope ⟨d, plainLocations, {}⟩ .localSettings = .ok (s₁, map) ∧
          s₁.locations = plainLocations ∧
          ∃ d' entry, s₁.document.setText map (Scope.localSettings.normalize "browser") "firefox" =
              .ok (d', entry) ∧
            table? { s₁ with document := d' } .localSettings = some ⟨[("browser", "firefox")]⟩ :=
    ⟨_, by cbv, by cbv, _, _, by cbv, by cbv, _, _, by cbv, by cbv⟩
  have hload := run_load_danglingRepository (isLegacy_tokenReader "editor: vim\n") hparse {}
  have hwrite := run_writeText_danglingRepository "editor: vim\n" (d'.encode map [])
  rw [← hlocations] at hwrite
  exact ⟨_, _, hload, fun findShell ↦ run_scopeSet hopen hset (run_writeScope hwrite), hbefore, hafter⟩

/-! ## Edits that fail -/

variable {sure : FileOp → Prop} {disk disk' : Disk} {e : AliasError}

theorem writeScope_completes {result : Except ConfigError Unit}
    (h : (s.writeScope scope map).run.Completes sure disk result disk') :
    ∃ written, result = written.mapError .file ∧
      (Access.writeText (s.scopeFile scope) (s.document.encode map [])).run.Completes sure disk written
        disk' := by
  obtain ⟨written, d₁, hwrite, hrest⟩ := completes_bind.1 h
  obtain ⟨rfl, rfl⟩ := completes_pure.1 hrest
  exact ⟨written, rfl, hwrite⟩

/-- How an edit fails: before anything is written, or when the file is written. -/
inductive EditFailure (sure : FileOp → Prop) (s : FileStore) (scope : Scope) (operation : ScopeOperation)
    (disk : Disk) : AliasError → FileStore → Disk → Prop
  | notOpened {e : AliasError} (hcause : ∀ cause, e ≠ .config (.file cause)) :
      EditFailure sure s scope operation disk e s disk
  | refused {e : AliasError} {s₁ : FileStore} {map : NodeId} (hcause : ∀ cause, e ≠ .config (.file cause))
      (hopen : s.openScope scope = .ok (s₁, map)) : EditFailure sure s scope operation disk e s₁ disk
  | notWritten {cause : FileFailure} {s₁ : FileStore} {map : NodeId} {document : Document} {disk' : Disk}
      (hopen : s.openScope scope = .ok (s₁, map)) (hleaves : Leaves scope s₁.document map operation document)
      (hwrite : (Access.writeText (scopeFile { s₁ with document := document } scope)
        (document.encode map [])).run.Completes sure disk (.error cause) disk') :
      EditFailure sure s scope operation disk (.config (.file cause)) { s₁ with document := document } disk'

theorem editFailure_of_completes (hedit : operation.IsEdit name)
    (h : (s.perform findShell (.scope scope operation)).Completes sure disk (.error e, s') disk') :
    EditFailure sure s scope operation disk e s' disk' := by
  rw [perform] at h
  split at h
  · obtain ⟨hresult, rfl⟩ := completes_pure.1 h
    cases hresult
    exact .notOpened fun cause heq ↦ by cases heq
  rename_i s₁ map hopen
  cases scopeCourse s₁ scope map operation with
  | get => cases hedit
  | all => cases hedit
  | refused hcause hrefused =>
    rw [hrefused] at h
    obtain ⟨hresult, rfl⟩ := completes_pure.1 h
    cases hresult
    exact .refused hcause hopen
  | leaves hleaves =>
    rw [performScope_of_leaves hleaves] at h
    obtain ⟨result, disk₁, hwrite, hrest⟩ := completes_bind.1 h
    obtain ⟨hresult, rfl⟩ := completes_pure.1 hrest
    obtain ⟨written, rfl, htext⟩ := writeScope_completes hwrite
    cases written with
    | ok => cases hresult
    | error cause =>
      cases hresult
      exact .notWritten hopen hleaves htext

theorem addsDirectories_of_editFailure (htree : disk.IsTree) (hworking : disk.HasWorkingDirectory)
    (hsure : ∀ p, sure (.remove p)) (h : EditFailure sure s scope operation disk e s' disk') :
    disk.AddsDirectories disk' := by
  cases h with
  | notOpened => exact .refl disk
  | refused => exact .refl disk
  | notWritten _ _ hwrite =>
    cases Access.writeText_completes htree hworking hwrite with
    | obstructed => exact .refl disk
    | failed _ hnothing => exact hnothing hsure

/-- What an edit leaves is what it comes to when its file can be written. -/
theorem yields_of_leaves {document : Document} (hedit : operation.IsEdit name)
    (hopen : s.openScope scope = .ok (s₁, map)) (hleaves : Leaves scope s₁.document map operation document)
    (findShell : ShellFinder) :
    (s.perform findShell (.scope scope operation)).Yields (.ok .done, { s₁ with document := document }) := by
  cases hleaves with
  | set htext => exact yields_scopeSet hopen htext
  | delete hremove => exact yields_scopeDelete hopen hremove
  | write => cases hedit

theorem edited_of_leaves {document : Document} (ht : s.document.Holds t) (hedit : operation.IsEdit name)
    (hopen : s.openScope scope = .ok (s₁, map)) (hleaves : Leaves scope s₁.document map operation document) :
    ∃ t' u u', document.Holds t' ∧ s₁.locations = s.locations ∧ Edits scope operation u u' ∧
      Edited t t' scope name u u' := by
  obtain ⟨u, hopened, hlocations, -⟩ := opened_of_openScope ht hopen
  obtain ⟨places, hangs, hnodup, hlift⟩ := hopened.hangs
  obtain ⟨u', places', hedits, hbecomes⟩ := hleaves.becomes hangs hnodup
  obtain ⟨t', ht', hholds⟩ := hlift hbecomes
  refine ⟨t', u, u', hholds, hlocations, hedits, ?_, hedits.isMapping hopened.isMapping,
    hedits.sameBut hedit, ht'⟩
  rw [opened_eq (isMapping_of_update ht'), hopened.opens]

/-- An edit of a scope that fails has changed no file, when the removal of its temporary file does not
fail too. If it was refused before its file was written, the disk is as it was and every lookup answers as
before. If the file could not be written, the store is the one that the edit leaves when its file can be
written: a value that was to be set is found. Every lookup that does not ask for the edited name answers as
before, and the table of the scope has the same under all other names. -/
theorem failed_edit_changes_no_file (h : s.Reached) (hedit : operation.IsEdit name)
    (htree : disk.IsTree) (hworking : disk.HasWorkingDirectory)
    (hcall : (s.perform findShell (.scope scope operation)).Completes FileOp.IsRemoval disk
      (.error e, s') disk') :
    disk.AddsDirectories disk' ∧
    (∀ path bytes, disk.read path = .ok bytes → disk'.read path = .ok bytes) ∧
    ((∀ cause, e ≠ .config (.file cause)) → disk' = disk ∧ ∀ findShell lookup, lookup.IsLookup →
      Prod.fst <$> s'.perform findShell lookup = Prod.fst <$> s.perform findShell lookup) ∧
    ∀ cause, e = .config (.file cause) →
      (s.perform findShell (.scope scope operation)).Yields (.ok .done, s') ∧
      (∀ value findShell, operation = .set name value →
        Prod.fst <$> s'.perform findShell (.scope scope (.get name)) = pure (.ok (.found (some value)))) ∧
      (∀ findShell lookup, lookup.IsLookup → ¬ lookup.AsksFor scope name →
        Prod.fst <$> s'.perform findShell lookup = Prod.fst <$> s.perform findShell lookup) ∧
      ∃ table table', s.table? scope = some table ∧ s'.table? scope = some table' ∧
        ∀ other, other ≠ scope.normalize name → table'.get? other = table.get? other := by
  obtain ⟨t, ht⟩ := h.holds
  have hfailure := editFailure_of_completes hedit hcall
  have hadds := addsDirectories_of_editFailure htree hworking (fun _ ↦ trivial) hfailure
  refine ⟨hadds, fun path bytes hread ↦ hadds.extends.read_eq hworking hread, ?_, ?_⟩
  · intro hcause
    cases hfailure with
    | notOpened => exact ⟨rfl, fun _ _ _ ↦ rfl⟩
    | refused _ hopen =>
      obtain ⟨t', hrefused, ht', -⟩ := refused_of_open ht hopen
      obtain ⟨-, -, hlocations, -⟩ := opened_of_openScope ht hopen
      exact ⟨rfl, fun findShell lookup hlookup ↦
        lookup_of_refused ht ht' hrefused hlocations hlookup findShell⟩
    | notWritten => exact absurd rfl (hcause _)
  · rintro cause rfl
    cases hfailure with
    | notOpened hcause => exact absurd rfl (hcause cause)
    | refused hcause => exact absurd rfl (hcause cause)
    | notWritten hopen hleaves =>
      obtain ⟨t', u, u', ht', hlocations, hedits, hedited⟩ := edited_of_leaves ht hedit hopen hleaves
      refine ⟨yields_of_leaves hedit hopen hleaves findShell, ?_, ?_, _, _,
        table?_of_opened ht hedited.opened, table?_of_opened ht' hedited.opened_self,
        hedited.sameBut.texts⟩
      · rintro value findShell rfl
        rw [perform_get ht', hedited.opened_self]
        cases hedits with
        | set hu' =>
          obtain ⟨v, hv, hlookup⟩ := lookup?_update hu'
          have hfound : valueAt? [scope.normalize name] u' = some value := by
            rw [valueAt?, hlookup]
            exact (storeText_eq_ok hv).1
          change pure (Except.ok (Answer.found _)) = _
          rw [hfound]
      · intro findShell lookup hlookup hasks
        refine hedited.lookup_eq ht ?_ ?_ hlookup hasks findShell
        · exact ht'
        · exact hlocations

theorem failed_edit_changes_no_file_local :
    ∃ s s' : FileStore, s.Reached ∧
      (s.perform (pure (.error .notFound)) (.scope .localSettings (.set "browser" "firefox"))).run
          (danglingRepository "editor: vim\n") =
        ((.error (.config (.file (.failed .createDirectory ⟨"/repo"⟩ .alreadyExists))), s'),
          danglingRepository "editor: vim\n") ∧
      (∀ findShell, Prod.fst <$> s'.perform findShell (.scope .localSettings (.get "browser")) =
        pure (.ok (.found (some "firefox")))) ∧
      ∀ findShell (lookup : Operation), lookup.IsLookup → ¬ lookup.AsksFor .localSettings "browser" →
        Prod.fst <$> s'.perform findShell lookup = Prod.fst <$> s.perform findShell lookup := by
  obtain ⟨s, s', hload, hset, -⟩ := exists_failed_set
  have hreached : s.Reached := by
    have hyields := yields_run (load tokenReader plainLocations {}).run (danglingRepository "editor: vim\n")
    change Yields _ ((load tokenReader plainLocations {}).run.run _).1 at hyields
    rw [hload] at hyields
    exact .load hyields
  have hcompletes := completes_run FileOp.IsRemoval
    (s.perform (pure (.error .notFound)) (.scope .localSettings (.set "browser" "firefox")))
    (danglingRepository "editor: vim\n")
  rw [hset] at hcompletes
  have hedit : ScopeOperation.IsEdit "browser" (.set "browser" "firefox") := rfl
  obtain ⟨-, -, -, hwritten⟩ := failed_edit_changes_no_file hreached hedit
    (isTree_danglingRepository _) Disk.HasDirectory.root hcompletes
  obtain ⟨-, hfound, hsame, -⟩ := hwritten _ rfl
  exact ⟨s, s', hreached, hset _, fun findShell ↦ hfound _ findShell rfl, hsame⟩

/-- A local setting that could not be written is listed, and was not there before. -/
theorem failed_local_edit_stays :
    ∃ s s', (load tokenReader plainLocations {}).run.run (danglingRepository "editor: vim\n") =
        (.ok s, danglingRepository "editor: vim\n") ∧
      (s.perform (pure (.error .notFound)) (.scope .localSettings (.set "browser" "firefox"))).run
          (danglingRepository "editor: vim\n") =
        ((.error (.config (.file (.failed .createDirectory ⟨"/repo"⟩ .alreadyExists))), s'),
          danglingRepository "editor: vim\n") ∧
      ∀ findShell,
        Prod.fst <$> s.perform findShell (.scope .localSettings .all) = pure (.ok (.table ⟨[]⟩)) ∧
        Prod.fst <$> s'.perform findShell (.scope .localSettings .all) =
          pure (.ok (.table ⟨[("browser", "firefox")]⟩)) := by
  obtain ⟨s, s', hload, hset, hbefore, hafter⟩ := exists_failed_set
  exact ⟨s, s', hload, hset _, fun findShell ↦
    ⟨perform_all_of_table? hbefore findShell, perform_all_of_table? hafter findShell⟩⟩

end FileStore

end LayeredConfig
