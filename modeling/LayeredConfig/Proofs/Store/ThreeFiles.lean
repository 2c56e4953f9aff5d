import Mathlib
import LayeredConfig.Proofs.Store.Scopes

/-!
# One merged document and three files

Settings, hosts, aliases and local settings are changed in one merged document. What is written
for each of the three files is what the file would be if its own document had been changed alone.
-/

namespace LayeredConfig.FileStore

open LayeredConfig.Tree
open LayeredConfig.Document
open LayeredConfig.FileProgram

/-! ## Calls -/

/-- A change of a store, by the part that it is about. -/
inductive Call where
  | set (host key value : String)
  | unsetHost (host : String)
  | scopeSet (scope : Scope) (name value : String)
  | scopeDelete (scope : Scope) (name : String)

namespace Call

def operation : Call → Operation
  | set host key value => .set host key value
  | unsetHost host => .unsetHost host
  | scopeSet scope name value => .scope scope (.set name value)
  | scopeDelete scope name => .scope scope (.delete name)

/-- No global value is stored under the key of a scope. -/
def SparesScopes : Call → Prop
  | set host key _ => host = "" → ∀ scope : Scope, key ≠ scope.key
  | _ => True

/-- What a call does to the store of the main file alone. -/
def onMain (s : FileStore) : Call → Option FileStore
  | set host key value =>
    match s.set host key value with
    | (.ok (), s) => some s
    | (.error _, _) => none
  | unsetHost host => some (s.unsetHost host)
  | _ => some s

/-- What a call does to the document of a scope alone. -/
def onScope (scope : Scope) (d : Document) : Call → Option Document
  | scopeSet other name value =>
    if other = scope then (d.setText d.root (scope.normalize name) value).toOption.map Prod.fst
    else some d
  | scopeDelete other name =>
    if other = scope then (d.removeEntry d.root (scope.normalize name)).map Prod.fst else some d
  | _ => some d

end Call

/-- Calls that all succeed, whatever the answers to their file operations. -/
inductive Runs (findShell : ShellFinder) : FileStore → List Call → FileStore → Prop
  | nil (s : FileStore) : Runs findShell s [] s
  | cons {s s' s'' : FileStore} {call : Call} {calls : List Call} {answer : Answer}
      (hyields : (s.perform findShell call.operation).Yields (.ok answer, s'))
      (h : Runs findShell s' calls s'') : Runs findShell s (call :: calls) s''

variable {s s' : FileStore} {t t' m : Tree} {p : Scope → Tree} {scope : Scope} {key : String}
  {f : Change}

/-! ## Merged trees -/

/-- A tree in which the tree of the main file and those of the scopes are merged. -/
structure Merged (t m : Tree) (p : Scope → Tree) : Prop where
  isMapping : t.isMapping = true
  main : t.without scopeKeys = m
  part : ∀ scope, (p scope).isMapping = true
  opened : ∀ scope g, Tree.inside scope.key g (t.lookup? scope.key) = g (p scope)

/-- A change under another key is a change of the main part. -/
theorem Merged.update (h : Merged t m p) (hkey : key ∉ scopeKeys) (ht : t.update key f = .ok t') :
    ∃ m', m.update key f = .ok m' ∧ Merged t' m' p := by
  refine ⟨t'.without scopeKeys, ?_, isMapping_update ht, rfl, h.part, fun scope g ↦ ?_⟩
  · rw [← h.main]
    exact update_without hkey ht
  · rw [lookup?_update_of_ne ht (ne_of_mem_of_not_mem (key_mem_scopeKeys scope) hkey)]
    exact h.opened scope g

theorem Merged.dropBelow (h : Merged t m p) (hkey : key ∉ scopeKeys) (name : String) :
    Merged (t.dropBelow key name) (m.dropBelow key name) p := by
  refine ⟨isMapping_dropBelow.trans h.isMapping, ?_, h.part, fun scope g ↦ ?_⟩
  · rw [← h.main, dropBelow_without hkey]
  · rw [lookup?_dropBelow_of_ne (ne_of_mem_of_not_mem (key_mem_scopeKeys scope) hkey)]
    exact h.opened scope g

/-- A change under the key of a scope is a change of that part. -/
theorem Merged.updateScope (h : Merged t m p) {u : Tree} (hu : u.isMapping = true)
    (ht : t.update scope.key (fun _ ↦ .ok u) = .ok t') :
    Merged t' m (Function.update p scope u) := by
  refine ⟨isMapping_update ht, ?_, fun other ↦ ?_, fun other g ↦ ?_⟩
  · rw [without_update (key_mem_scopeKeys scope) ht]
    exact h.main
  · by_cases heq : other = scope
    · subst heq
      rw [Function.update_self]
      exact hu
    · rw [Function.update_of_ne heq]
      exact h.part other
  · by_cases heq : other = scope
    · subst heq
      obtain ⟨v, hv, hlookup⟩ := lookup?_update ht
      obtain rfl := Except.ok.inj hv
      rw [hlookup, Function.update_self]
      exact inside_of_isMapping hu
    · rw [Function.update_of_ne heq, lookup?_update_of_ne ht fun hkey ↦ heq (key_injective hkey)]
      exact h.opened other g

/-! ## One call -/

/-- The store holds the tree in which the trees of the main store and of the scopes are merged. -/
def Split (s main : FileStore) (part : Scope → Document) : Prop :=
  ∃ t m p, s.document.Holds t ∧ main.document.Holds m ∧ (∀ scope, (part scope).Holds (p scope)) ∧
    Merged t m p

theorem Merged.storeAt (h : Merged t m p) {value : String} {path : List String}
    (hkey : key ∉ scopeKeys) (ht : storeAt value key path t = .ok t') :
    ∃ m', Tree.storeAt value key path m = .ok m' ∧ Merged t' m' p := by
  cases path with
  | nil => exact h.update hkey ht
  | cons next path => exact h.update hkey ht

variable {main : FileStore} {part : Scope → Document}

theorem split_set (h : Split s main part) {host value : String}
    (hspares : host = "" → ∀ scope : Scope, key ≠ scope.key)
    (hset : s.set host key value = (.ok (), s')) :
    ∃ main', main.set host key value = (.ok (), main') ∧ Split s' main' part := by
  obtain ⟨t, m, p, ht, hm, hp, hmerged⟩ := h
  obtain ⟨t', hstore, ht', -, -⟩ := holds_set ht hset
  obtain ⟨m', hstore', hmerged'⟩ :=
    hmerged.storeAt (settingPath_not_mem_scopeKeys hspares) hstore
  obtain ⟨main', hset', hm'⟩ := set_of_storeSetting hm hstore'
  exact ⟨main', hset', t', m', p, ht', hm', hp, hmerged'⟩

theorem split_unsetHost (h : Split s main part) (host : String) :
    Split (s.unsetHost host) (main.unsetHost host) part := by
  obtain ⟨t, m, p, ht, hm, hp, hmerged⟩ := h
  by_cases hhost : host.isEmpty = true
  · rw [unsetHost, unsetHost, if_pos hhost, if_pos hhost]
    exact ⟨t, m, p, ht, hm, hp, hmerged⟩
  · exact ⟨_, _, p, holds_unsetHost ht hhost, holds_unsetHost hm hhost, hp,
      hmerged.dropBelow (by decide) host⟩

/-- The mapping of an open scope is the tree of that scope. -/
theorem inside_openScope {places : List NodeId} {map : NodeId} (hmerged : Merged t m p)
    (hangs : Hangs s.document t s.document.root places) (hnodup : places.Nodup)
    (hopen : s.openScope scope = .ok (s', map)) :
    ∃ uPlaces, Inside s.document t s.document.root places scope.key s'.document (p scope) map
      uPlaces := by
  obtain ⟨d, hensure, rfl⟩ := openScope_eq_ok hopen
  obtain ⟨u, uPlaces, -, hu, hinside⟩ := hangs.ensureMapping hnodup hensure
  have heq : Except.ok u = (Except.ok (p scope) : Except ShapeError Tree) :=
    (hu .ok).symm.trans (hmerged.opened scope .ok)
  obtain rfl := Except.ok.inj heq
  exact ⟨uPlaces, hinside⟩

/-- A part that was changed in the merged document and alone. -/
theorem split_update {d' : Document} {u : Tree} (ht' : s'.document.Holds t')
    (hm : main.document.Holds m) (hp : ∀ scope, (part scope).Holds (p scope))
    (hmerged : Merged t m p) (hu : u.isMapping = true)
    (hupdate : t.update scope.key (fun _ ↦ .ok u) = .ok t') (hd' : d'.Holds u) :
    Split s' main (Function.update part scope d') := by
  refine ⟨t', m, Function.update p scope u, ht', hm, fun other ↦ ?_, hmerged.updateScope hu hupdate⟩
  by_cases heq : other = scope
  · subst heq
    rw [Function.update_self, Function.update_self]
    exact hd'
  · rw [Function.update_of_ne heq, Function.update_of_ne heq]
    exact hp other

/-- What an operation on a scope leaves of the merged document, it leaves of the scope alone. -/
theorem split_leaves (h : Split s main part) {operation : ScopeOperation} {s₁ : FileStore}
    {map : NodeId} {d : Document} (hopen : s.openScope scope = .ok (s₁, map))
    (hleaves : Leaves scope s₁.document map operation d) :
    ∃ d', Leaves scope (part scope) (part scope).root operation d' ∧
      Split { s₁ with document := d } main (Function.update part scope d') := by
  obtain ⟨t, m, p, ⟨places, hangs, hnodup⟩, hm, hp, hmerged⟩ := h
  obtain ⟨uPlaces, hinside⟩ := inside_openScope hmerged hangs hnodup hopen
  obtain ⟨u, uPlaces', hedits, hbecomes⟩ := hleaves.becomes hinside.hangs hinside.nodup
  obtain ⟨t', places', ht', hbecomes'⟩ := hinside.lift hbecomes
  obtain ⟨d', hleaves', hd'⟩ := hedits.exists_leaves (hp scope)
  have hu := hedits.isMapping (hmerged.part scope)
  exact ⟨d', hleaves', split_update hbecomes'.holds hm hp hmerged hu ht' hd'⟩

/-! ## Calls of the merged store -/

variable {findShell : ShellFinder} {answer : Answer} {host value name : String}

theorem set_of_yields
    (h : (s.perform findShell (.set host key value)).Yields (.ok answer, s')) :
    s.set host key value = (.ok (), s') := by
  cases hset : s.set host key value with
  | mk outcome s₁ =>
    rw [perform, hset] at h
    obtain ⟨hresult, rfl⟩ := Prod.mk.inj (yields_pure.1 h)
    cases outcome with
    | error e => cases hresult
    | ok => rfl

theorem scopeSet_of_yields
    (h : (s.perform findShell (.scope scope (.set name value))).Yields (.ok answer, s')) :
    ∃ s₁ map d entry, s.openScope scope = .ok (s₁, map) ∧
      s₁.document.setText map (scope.normalize name) value = .ok (d, entry) ∧
      s' = { s₁ with document := d } := by
  rw [perform] at h
  split at h
  · cases (Prod.mk.inj (yields_pure.1 h)).1
  · rename_i s₁ map hopen
    cases scopeOutcome_of_yields h with
    | done hleaves =>
      cases hleaves with
      | set htext => exact ⟨s₁, map, _, _, hopen, htext, rfl⟩

theorem scopeDelete_of_yields
    (h : (s.perform findShell (.scope scope (.delete name))).Yields (.ok answer, s')) :
    ∃ s₁ map d entry, s.openScope scope = .ok (s₁, map) ∧
      s₁.document.removeEntry map (scope.normalize name) = some (d, entry) ∧
      s' = { s₁ with document := d } := by
  rw [perform] at h
  split at h
  · cases (Prod.mk.inj (yields_pure.1 h)).1
  · rename_i s₁ map hopen
    cases scopeOutcome_of_yields h with
    | done hleaves =>
      cases hleaves with
      | delete hremove => exact ⟨s₁, map, _, _, hopen, hremove, rfl⟩

/-- A call that changes the part of one scope. -/
theorem onScope_update {call : Call} {d' : Document}
    (hscope : call.onScope scope (part scope) = some d')
    (hothers : ∀ other ≠ scope, call.onScope other (part other) = some (part other))
    (other : Scope) :
    call.onScope other (part other) = some (Function.update part scope d' other) := by
  by_cases heq : other = scope
  · subst heq
    rw [hscope, Function.update_self]
  · rw [hothers other heq, Function.update_of_ne heq]

/-- Each call does to its own part what it does to the merged document, and nothing to others. -/
theorem split_call (h : Split s main part) {call : Call} (hspares : call.SparesScopes)
    (hyields : (s.perform findShell call.operation).Yields (.ok answer, s')) :
    ∃ main' part', call.onMain main = some main' ∧
      (∀ scope, call.onScope scope (part scope) = some (part' scope)) ∧ Split s' main' part' := by
  cases call with
  | set host key value =>
    obtain ⟨main', hset, h'⟩ := split_set h hspares (set_of_yields hyields)
    refine ⟨main', part, ?_, fun _ ↦ rfl, h'⟩
    rw [Call.onMain, hset]
  | unsetHost host =>
    obtain rfl := (Prod.mk.inj (yields_pure.1 hyields)).2
    exact ⟨_, part, rfl, fun _ ↦ rfl, split_unsetHost h host⟩
  | scopeSet scope name value =>
    obtain ⟨s₁, map, d, entry, hopen, htext, rfl⟩ := scopeSet_of_yields hyields
    obtain ⟨d', hleaves, h'⟩ := split_leaves h hopen (.set htext)
    refine ⟨main, _, rfl, onScope_update ?_ fun other hne ↦ if_neg hne.symm, h'⟩
    cases hleaves with
    | set htext' =>
      rw [Call.onScope, if_pos rfl, htext']
      rfl
  | scopeDelete scope name =>
    obtain ⟨s₁, map, d, entry, hopen, hremove, rfl⟩ := scopeDelete_of_yields hyields
    obtain ⟨d', hleaves, h'⟩ := split_leaves h hopen (.delete hremove)
    refine ⟨main, _, rfl, onScope_update ?_ fun other hne ↦ if_neg hne.symm, h'⟩
    cases hleaves with
    | delete hremove' =>
      rw [Call.onScope, if_pos rfl, hremove']
      rfl

theorem split_runs {calls : List Call} (hruns : Runs findShell s calls s') {main : FileStore}
    {part : Scope → Document} (h : Split s main part) (hspares : ∀ call ∈ calls, call.SparesScopes) :
    ∃ main' part', calls.foldlM Call.onMain main = some main' ∧
      (∀ scope, calls.foldlM (Call.onScope scope) (part scope) = some (part' scope)) ∧
      Split s' main' part' := by
  induction hruns generalizing main part with
  | nil s => exact ⟨main, part, rfl, fun _ ↦ rfl, h⟩
  | cons hyields _ ih =>
    obtain ⟨hcall, hrest⟩ := List.forall_mem_cons.1 hspares
    obtain ⟨main₁, part₁, hmain, hpart, h₁⟩ := split_call h hcall hyields
    obtain ⟨main', part', hmain', hpart', h'⟩ := ih h₁ hrest
    refine ⟨main', part', ?_, fun scope ↦ ?_, h'⟩
    · rw [List.foldlM_cons, hmain]
      exact hmain'
    · rw [List.foldlM_cons, hpart]
      exact hpart' scope

/-! ## What is written -/

theorem mainText_of_split (h : Split s main part) : s.mainText = main.mainText := by
  obtain ⟨t, m, p, ht, hm, -, hmerged⟩ := h
  rw [mainText, mainText, encode_of_treeAt? ht.tree?, encode_of_treeAt? hm.tree?,
    ← encode_without _ t, ← encode_without _ m, ← hmerged.main]
  exact congrArg (Tree.encode []) (without_without _ t).symm

/-- The text that an open scope is written with. -/
def scopeText? (s : FileStore) (scope : Scope) : Option String :=
  match s.openScope scope with
  | .ok (s, map) => some (s.document.encode map [])
  | .error _ => none

theorem scopeText_of_split (h : Split s main part) (scope : Scope) :
    s.scopeText? scope = some ((part scope).encode (part scope).root []) := by
  obtain ⟨t, m, p, ⟨places, hangs, hnodup⟩, hm, hp, hmerged⟩ := h
  rw [encode_of_treeAt? (hp scope).tree?, scopeText?]
  split
  · rename_i s' map hopen
    obtain ⟨uPlaces, hinside⟩ := inside_openScope hmerged hangs hnodup hopen
    rw [encode_of_treeAt? (hinside.hangs.treeAt? hinside.nodup)]
  · rename_i e hopen
    obtain ⟨t', ht'⟩ := exists_update hmerged.isMapping (hmerged.opened scope .ok)
    rw [hangs.update_of_ensureMapping_error hnodup (openScope_eq_error hopen)] at ht'
    cases ht'

/-! ## Loading -/

theorem merged_of_keys (ht : t.isMapping = true) (hkeys : ∀ scope : Scope, t.lookup? scope.key = none) :
    Merged t t fun _ ↦ .mapping {} [] := by
  refine ⟨ht, without_eq_self ?_, fun _ ↦ rfl, fun scope g ↦ ?_⟩
  · intro key hmem
    simp only [scopeKeys, List.mem_cons, List.not_mem_nil, or_false] at hmem
    rcases hmem with rfl | rfl
    · exact hkeys .aliases
    · exact hkeys .localSettings
  · rw [hkeys, Tree.inside]

theorem holds_empty : Document.empty.Holds (.mapping {} []) :=
  ⟨[⟨0⟩], .mapping rfl .nil, List.pairwise_singleton _ _⟩

theorem lookup?_of_not_mem_keys {d : Document} (h : d.Holds t) (hkey : key ∉ d.keys d.root) :
    t.lookup? key = none := by
  obtain ⟨places, hangs, -⟩ := h
  apply hangs.lookup?_eq_none
  rw [findEntry?_eq_none_iff]
  intro entry hmem htext
  exact hkey (List.mem_filterMap.2 ⟨entry, hmem, htext⟩)

theorem split_of_parse {text : String} {d : Document} (hparse : parse text = .ok d)
    (hkeys : ∀ scope : Scope, scope.key ∉ d.keys d.root) (locations : Locations)
    (environment : Environment) :
    Split ⟨d, locations, environment⟩ ⟨d, locations, environment⟩ fun _ ↦ Document.empty := by
  obtain ⟨t, ht, hfile⟩ := holds_of_parse hparse
  exact ⟨t, t, fun _ ↦ .mapping {} [], ht, ht, fun _ ↦ holds_empty,
    merged_of_keys (isMapping_of_isFile hfile) fun scope ↦ lookup?_of_not_mem_keys ht (hkeys scope)⟩

/-- A document that was merged into the store is the part of its scope. -/
theorem split_merged (h : Split s main part) (scope : Scope) {found : Option Document}
    (hempty : part scope = Document.empty)
    (hparse : ∀ d, found = some d → ∃ text, parse text = .ok d) :
    Split (s.merged scope found) main (Function.update part scope (found.getD Document.empty)) := by
  cases found with
  | none =>
    rw [merged, Option.getD_none, ← hempty, Function.update_eq_self]
    exact h
  | some d =>
    obtain ⟨text, hd⟩ := hparse d rfl
    obtain ⟨u, hu, hfile⟩ := holds_of_parse hd
    obtain ⟨t, m, p, ⟨places, hangs, hnodup⟩, hm, hp, hmerged⟩ := h
    obtain ⟨t', places', ht', hbecomes⟩ :=
      hangs.spliceValue hnodup hmerged.isMapping scope.key u
    refine split_update ?_ hm hp hmerged (isMapping_of_isFile hfile) ht' hu
    rw [merged, hu.tree?]
    exact hbecomes.holds

/-- The main file has no key of a scope. However the merged store is then changed, by calls that
succeed, the text that is written for each of the three files is that of its own document, to
which only the calls about it were made. -/
theorem load_runs_apart {reader : Yaml.Reader} {locations : Locations} {environment : Environment}
    {disk : Disk} {text : String} {d : Document} {found : Scope → Option Document}
    (hread : ((Access.readText locations.mainFile).run.run disk).1 = .ok text)
    (hlegacy : Legacy.isLegacy reader text = false) (hparse : parse text = .ok d)
    (hkeys : ∀ scope : Scope, scope.key ∉ d.keys d.root)
    (hfound : ∀ scope, Stored disk (scopeFile ⟨d, locations, environment⟩ scope) (found scope)) :
    ∃ s, (load reader locations environment).run.run disk = (.ok s, disk) ∧
      ∀ findShell calls s', (∀ call ∈ calls, call.SparesScopes) → Runs findShell s calls s' →
        ∃ (main : FileStore) (part : Scope → Document),
          calls.foldlM Call.onMain ⟨d, locations, environment⟩ = some main ∧
          (∀ scope, calls.foldlM (Call.onScope scope) ((found scope).getD Document.empty) =
            some (part scope)) ∧
          s'.mainText = main.mainText ∧
          ∀ scope, s'.scopeText? scope = some ((part scope).encode (part scope).root []) := by
  refine ⟨_, run_load hread hlegacy hparse hfound, ?_⟩
  intro findShell calls s' hspares hruns
  have hstart := split_of_parse hparse hkeys locations environment
  have haliases := split_merged hstart .aliases rfl (exists_parse_of_stored (hfound .aliases))
  have hlocal := split_merged haliases .localSettings rfl (exists_parse_of_stored (hfound .localSettings))
  obtain ⟨main, part, hmain, hpart, hsplit⟩ := split_runs hruns hlocal hspares
  refine ⟨main, part, hmain, fun scope ↦ ?_, mainText_of_split hsplit, scopeText_of_split hsplit⟩
  rw [← hpart scope]
  cases scope <;> rfl

/-- A main file and an alias file. There is no directory for a local file. -/
def aliasedFiles : Disk where
  nodes :=
    [(["cfg"], .directory),
      (["cfg", "config.yml"], .file "editor: vim\n".toUTF8 false),
      (["cfg", "aliases.yml"], .file "co: mr checkout\n".toUTF8 false)]

def aliasedLocations : Locations :=
  ⟨⟨"/cfg"⟩, ⟨"/repo"⟩⟩

/-- What a reader answers about the main file of `aliasedFiles`. -/
def aliasedReader : Yaml.Reader where
  value _ := .ok (.mapping [(.string "editor", .string "vim")])
  settings _ := .ok [("editor", .string "vim")]

theorem readText_aliasedFiles :
    ((Access.readText aliasedLocations.mainFile).run.run aliasedFiles).1 = .ok "editor: vim\n" := by
  have hdirectory : aliasedLocations.mainFile.directory = ⟨"/cfg"⟩ := by decide +kernel
  have hcheck : (Access.checkDirectory ⟨"/cfg"⟩).run.run aliasedFiles = (.ok (), aliasedFiles) := by
    cbv
  have hwalk : aliasedFiles.walk true Disk.maxLinks [] ["cfg", "config.yml"] =
      .ok (.found ["cfg", "config.yml"] (.file "editor: vim\n".toUTF8 false)) := by
    cbv
  rw [← hdirectory] at hcheck
  exact Access.run_readText_of_read hcheck (Disk.read_of_walk rfl hwalk) (by cbv)

theorem stored_aliases_aliasedFiles {a : Document} (ha : parse "co: mr checkout\n" = .ok a) :
    Stored aliasedFiles aliasedLocations.aliasesFile (some a) := by
  have hdirectory : aliasedLocations.aliasesFile.directory = ⟨"/cfg"⟩ := by decide +kernel
  have hcheck : (Access.checkDirectory ⟨"/cfg"⟩).run.run aliasedFiles = (.ok (), aliasedFiles) := by
    cbv
  have hwalk : aliasedFiles.walk true Disk.maxLinks [] ["cfg", "aliases.yml"] =
      .ok (.found ["cfg", "aliases.yml"] (.file "co: mr checkout\n".toUTF8 false)) := by
    cbv
  rw [← hdirectory] at hcheck
  exact .found (Access.run_readText_of_read hcheck (Disk.read_of_walk rfl hwalk) (by cbv)) ha

theorem stored_local_aliasedFiles : Stored aliasedFiles aliasedLocations.localFile none := by
  have hdirectory : aliasedLocations.localFile.directory = ⟨"/repo"⟩ := by decide +kernel
  have hcheck : (Access.checkDirectory ⟨"/repo"⟩).run.run aliasedFiles = (.ok (), aliasedFiles) := by
    cbv
  have hwalk : aliasedFiles.walk true Disk.maxLinks [] ["repo", "config.yml"] =
      .error .notFound := by
    cbv
  rw [← hdirectory] at hcheck
  exact .missing (Access.run_readText_of_notFound hcheck (Disk.read_of_walk_error rfl hwalk))

theorem load_runs_apart_aliasedFiles :
    ∃ d a s, parse "editor: vim\n" = .ok d ∧ parse "co: mr checkout\n" = .ok a ∧
      (load aliasedReader aliasedLocations {}).run.run aliasedFiles = (.ok s, aliasedFiles) ∧
      ∀ findShell calls s', (∀ call ∈ calls, call.SparesScopes) → Runs findShell s calls s' →
        ∃ (main : FileStore) (part : Scope → Document),
          calls.foldlM Call.onMain ⟨d, aliasedLocations, {}⟩ = some main ∧
          (∀ scope, calls.foldlM (Call.onScope scope)
              ((if scope = .aliases then some a else none : Option Document).getD Document.empty) =
            some (part scope)) ∧
          s'.mainText = main.mainText ∧
          ∀ scope, s'.scopeText? scope = some ((part scope).encode (part scope).root []) := by
  obtain ⟨a, ha⟩ : ∃ a, parse "co: mr checkout\n" = .ok a := ⟨_, by cbv⟩
  obtain ⟨d, hparse, hkeys⟩ : ∃ d, parse "editor: vim\n" = .ok d ∧ d.keys d.root = ["editor"] :=
    ⟨_, by cbv, by cbv⟩
  have hspares : ∀ scope : Scope, scope.key ∉ d.keys d.root := by
    rw [hkeys]
    exact fun scope ↦ by cases scope <;> decide
  have hlegacy : Legacy.isLegacy aliasedReader "editor: vim\n" = false := by cbv
  have hfound : ∀ scope, Stored aliasedFiles (scopeFile ⟨d, aliasedLocations, {}⟩ scope)
      (if scope = .aliases then some a else none) := by
    intro scope
    cases scope with
    | aliases => exact stored_aliases_aliasedFiles ha
    | localSettings => exact stored_local_aliasedFiles
  obtain ⟨s, hload, hruns⟩ := load_runs_apart readText_aliasedFiles hlegacy hparse hspares hfound
  exact ⟨d, a, s, hparse, ha, hload, hruns⟩

end LayeredConfig.FileStore
