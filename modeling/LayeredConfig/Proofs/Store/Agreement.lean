import LayeredConfig.Proofs.Store.History
import LayeredConfig.Proofs.Store.Mirror

/-!
# The store in files and the store in memory agree

Both stores carry out the same operations, starting empty. When every file can be written, they
answer the same to each operation, apart from the source of a value.
-/

namespace LayeredConfig

open LayeredConfig.Tree
open LayeredConfig.Document
open LayeredConfig.FileProgram

/-! ## Answers -/

/-- No global value is stored under a key under which the hosts or a scope hang. -/
def Operation.SparesTables : Operation → Prop
  | set host key _ => host = "" → Key.canonical key ∉ FileStore.tableKeys
  | _ => True

/-- An answer that does not tell where a value comes from. -/
def Answer.withoutSource : Answer → Answer
  | sourced value _ => sourced value MemoryStore.source
  | answer => answer

def Result.withoutSource (result : Result) : Result :=
  result.map Answer.withoutSource

/-- No file has failed. -/
def Result.SparesFiles (result : Result) : Prop :=
  ∀ cause, result ≠ .error (.config (.file cause))

/-! ## Runs -/

/-- Answers of a store in files to operations one after another, where no file fails. -/
inductive FileStore.Answers (findShell : ShellFinder) : FileStore → List Operation → List Result → Prop
  | nil (s : FileStore) : Answers findShell s [] []
  | cons {s s' : FileStore} {operation : Operation} {operations : List Operation} {result : Result}
      {results : List Result} (hyields : (s.perform findShell operation).Yields (result, s'))
      (hspares : result.SparesFiles) (h : Answers findShell s' operations results) :
      Answers findShell s (operation :: operations) (result :: results)

/-- Answers of a store in memory to operations one after another. -/
inductive MemoryStore.Answers (findShell : ShellFinder) :
    MemoryStore → List Operation → List Result → Prop
  | nil (m : MemoryStore) : Answers findShell m [] []
  | cons {m m' : MemoryStore} {operation : Operation} {operations : List Operation} {result : Result}
      {results : List Result} (hyields : (m.perform findShell operation).Yields (result, m'))
      (h : Answers findShell m' operations results) :
      Answers findShell m (operation :: operations) (result :: results)

namespace FileStore

variable {s s' s₁ : FileStore} {m m' : MemoryStore} {t t' u : Tree} {scope : Scope} {map : NodeId}
  {host key value name : String} {findShell : ShellFinder} {result : Result} {operation : Operation}

/-! ## Programs with one outcome -/

/-- What a program comes to unless a file fails. -/
structure Settles (p : FileProgram (Result × FileStore)) (result : Result) (s : FileStore) : Prop where
  yields : p.Yields (result, s)
  spares : result.SparesFiles
  unique : ∀ result' s', p.Yields (result', s') → result'.SparesFiles → result' = result ∧ s' = s

theorem settles_pure (h : result.SparesFiles) : Settles (pure (result, s)) result s := by
  refine ⟨.done _, h, fun result' s' hyields _ ↦ ?_⟩
  obtain ⟨hresult, hs⟩ := Prod.mk.inj (yields_pure.1 hyields)
  exact ⟨hresult.symm, hs.symm⟩

theorem sparesFiles_ok (answer : Answer) : Result.SparesFiles (.ok answer) :=
  fun _ heq ↦ by cases heq

theorem settles_of_filesOnly {work : Load Unit} (h : FilesOnly work) (s : FileStore) :
    Settles (do return (Result.done (← work.run), s)) (.ok .done) s := by
  refine ⟨yields_bind.2 ⟨.ok (), h.1, .done _⟩, sparesFiles_ok _, fun result' s' hyields hspares ↦ ?_⟩
  obtain ⟨outcome, hwork, hyields⟩ := yields_bind.1 hyields
  obtain ⟨rfl, rfl⟩ := Prod.mk.inj (yields_pure.1 hyields)
  cases outcome with
  | ok => exact ⟨rfl, rfl⟩
  | error e =>
    obtain ⟨cause, rfl⟩ := h.2 e hwork
    exact absurd rfl (hspares cause)

theorem settles_of_leaves {edit : ScopeOperation} {document : Document}
    (h : Leaves scope s.document map edit document) :
    Settles (s.performScope scope map edit) (.ok .done) { s with document := document } := by
  rw [performScope_of_leaves h]
  exact settles_of_filesOnly (filesOnly_writeScope _ scope map) _

/-! ## Stores that agree -/

/-- A store in files and one in memory that hold the same settings. -/
def Agree (s : FileStore) (m : MemoryStore) : Prop :=
  ∃ t, s.document.Holds t ∧ Mirrors t m ∧ s.environment = m.environment

theorem agree_empty (locations : Locations) (environment : Environment) :
    Agree ⟨Document.empty, locations, environment⟩ { environment } :=
  ⟨_, holds_empty, mirrors_empty environment, rfl⟩

theorem memory_getWithSource (m : MemoryStore) (host key : String) :
    m.getWithSource host key =
      ((firstValue? [if host = "" then none else m.hostValue? host (Key.canonical key),
        m.localSettings.get? (Key.canonical key), m.globals.get? (Key.canonical key)]).getD
      (Key.default (Key.canonical key)), MemoryStore.source) := by
  simp only [MemoryStore.getWithSource, nonEmpty?_of_host, firstValue?, List.findSome?_cons,
    List.findSome?_nil]
  cases nonEmpty? (if host = "" then none else m.hostValue? host (Key.canonical key)) with
  | some value => rfl
  | none =>
    cases nonEmpty? (m.localSettings.get? (Key.canonical key)) with
    | some value => rfl
    | none =>
      cases nonEmpty? (m.globals.get? (Key.canonical key)) with
      | some value => rfl
      | none => rfl

/-- Stores that agree hold the same value of a setting. -/
theorem Agree.getWithSource (h : Agree s m) (host key : String) :
    (s.getWithSource host key).1 = (m.getWithSource host key).1 := by
  obtain ⟨t, ht, hmirrors, -⟩ := h
  have hlocal := hmirrors.scopeValue_eq .localSettings (Key.canonical key)
  have hglobal := hmirrors.globalValue_eq (Key.canonical key)
  rw [getWithSource_fst, memory_getWithSource, hostValue?_eq ht, localValue?_eq ht, globalValue?_eq ht,
    hmirrors.hostValue_eq, hlocal]
  simp only [firstValue?, List.findSome?_cons, hglobal]
  rfl

theorem Agree.get (h : Agree s m) (host key : String) : s.get host key = m.get host key := by
  have hvalue := h.getWithSource host (Key.canonical key)
  obtain ⟨t, -, -, henvironment⟩ := h
  rw [FileStore.get, MemoryStore.get, henvironment, hvalue]

theorem Agree.hosts (h : Agree s m) : s.hosts = m.hosts := by
  obtain ⟨t, ⟨places, hangs, hnodup⟩, hmirrors, -⟩ := h
  rw [FileStore.hosts, MemoryStore.hosts]
  cases hfound : s.document.findEntry? s.document.root "hosts" with
  | none =>
    rcases hmirrors.hosts with ⟨-, hnone⟩ | ⟨v, hosts, hv, -, -⟩
    · rw [hnone]
    · rw [hangs.lookup?_eq_none hfound] at hv
      cases hv
  | some entry =>
    obtain ⟨v, valuePlaces, hlookup, hinside⟩ := hangs.inside hnodup hfound
    rcases hmirrors.hosts with ⟨hnone, -⟩ | ⟨w, hosts, hw, hhosts, htables⟩
    · rw [hnone] at hlookup
      cases hlookup
    · obtain rfl := Option.some.inj (hlookup.symm.trans hw)
      have hmapping : s.document.isMapping entry.value = true :=
        hinside.hangs.isMapping_eq.trans htables.isMapping
      rw [hhosts]
      simp only [hmapping, if_true, hinside.hangs.keys_eq, htables.lists.keyTexts_eq]

/-- Storing a setting succeeds in both stores. -/
theorem Agree.set (h : Agree s m) (hspares : host = "" → Key.canonical key ∉ tableKeys) :
    ∃ s', s.set host key value = (.ok (), s') ∧ Agree s' (m.set host key value) := by
  obtain ⟨t, ht, hmirrors, henvironment⟩ := h
  obtain ⟨t', hstore, hmirrors'⟩ : ∃ t', storeSetting host (Key.canonical key) value t = .ok t' ∧
      Mirrors t' (m.set host key value) := by
    rw [storeSetting, settingPath, MemoryStore.set]
    split
    · rename_i hhost
      exact hmirrors.setGlobal (hspares (String.isEmpty_iff.1 hhost)) value
    · rename_i hhost
      exact hmirrors.setHost (fun heq ↦ hhost (String.isEmpty_iff.2 heq)) _ value
  obtain ⟨s', hset, ht'⟩ := set_of_storeSetting ht hstore
  obtain ⟨-, -, -, -, henvironment'⟩ := holds_set ht hset
  refine ⟨s', hset, t', ht', hmirrors', ?_⟩
  rw [henvironment', henvironment, MemoryStore.set]
  split
  · rfl
  · rfl

theorem Agree.unsetHost (h : Agree s m) (host : String) :
    Agree (s.unsetHost host) (m.unsetHost host) := by
  obtain ⟨t, ht, hmirrors, henvironment⟩ := h
  by_cases hhost : host.isEmpty = true
  · obtain rfl := String.isEmpty_iff.1 hhost
    rw [FileStore.unsetHost, if_pos hhost, hmirrors.unsetHost_empty]
    exact ⟨t, ht, hmirrors, henvironment⟩
  · exact ⟨_, holds_unsetHost ht hhost, hmirrors.unsetHost host,
      (environment_unsetHost s host).trans henvironment⟩

/-! ## Scopes -/

/-- A scope that is open in the store in files. -/
structure AgreeOpen (s : FileStore) (m : MemoryStore) (scope : Scope) (map : NodeId) : Prop where
  agree : Agree s m
  opened : ∃ t u, Opened t scope s map u ∧ Mirrors t m ∧ Tabulates u (m.scopeTable scope)
  environment : s.environment = m.environment

theorem Agree.openScope (h : Agree s m) (scope : Scope) :
    ∃ s₁ map, s.openScope scope = .ok (s₁, map) ∧ AgreeOpen s₁ m scope map := by
  obtain ⟨t, ht, hmirrors, henvironment⟩ := h
  obtain ⟨u, hu, htable⟩ := hmirrors.scopes scope
  have hopens : inside scope.key .ok (t.lookup? scope.key) = .ok u := hu .ok
  obtain ⟨t₁, ht₁⟩ := exists_update hmirrors.isMapping hopens
  obtain ⟨s₁, map, hopen⟩ := exists_openScope ht ht₁
  obtain ⟨u', hopened, -, henvironment'⟩ := opened_of_openScope ht hopen
  obtain rfl : u = u' := Except.ok.inj ((hu .ok).symm.trans (hopened.opens .ok))
  obtain ⟨t₂, ht₂, hholds, -⟩ := hopened.exists_opened
  have hmirrors₂ : Mirrors t₂ m := by
    rw [← MemoryStore.setScopeTable_scopeTable m scope]
    refine hmirrors.updateScope htable ?_
    rw [← ht₂]
    exact update_congr (hu .ok).symm
  have henvironment₁ := henvironment'.trans henvironment
  exact ⟨s₁, map, hopen, ⟨t₂, hholds, hmirrors₂, henvironment₁⟩, ⟨t, u, hopened, hmirrors, htable⟩,
    henvironment₁⟩

theorem AgreeOpen.scopeAll (h : AgreeOpen s m scope map) : s.scopeAll map = m.scopeTable scope := by
  obtain ⟨t, u, hopened, -, htable⟩ := h.opened
  obtain ⟨places, hangs, -⟩ := hopened.hangs
  rw [FileStore.scopeAll, hangs.snapshot_eq, htable.texts_eq]

theorem AgreeOpen.scopeGet? (h : AgreeOpen s m scope map) (name : String) :
    s.scopeGet? scope map name = m.scopeGet? scope name := by
  obtain ⟨t, u, hopened, -, htable⟩ := h.opened
  obtain ⟨places, hangs, hnodup, -⟩ := hopened.hangs
  rw [FileStore.scopeGet?, MemoryStore.scopeGet?, hangs.get?_eq hnodup, htable.valueAt?_eq]

theorem AgreeOpen.scopeSet (h : AgreeOpen s m scope map) (name value : String) :
    ∃ s', Settles (s.performScope scope map (.set name value)) (.ok .done) s' ∧
      Agree s' (m.scopeSet scope name value) := by
  obtain ⟨t, u, hopened, hmirrors, htable⟩ := h.opened
  obtain ⟨u₁, hu₁, htable₁⟩ := htable.storeText (scope.normalize name) value
  obtain ⟨d, entry, htext⟩ := hopened.exists_setText hu₁
  obtain ⟨u', t', hu', ht', hholds⟩ := hopened.setText htext
  obtain rfl := Except.ok.inj (hu₁.symm.trans hu')
  refine ⟨{ s with document := d }, settles_of_leaves (.set htext), t', hholds,
    hmirrors.updateScope htable₁ ht', ?_⟩
  rw [MemoryStore.scopeSet, MemoryStore.environment_setScopeTable]
  exact h.environment

theorem AgreeOpen.scopeDelete (h : AgreeOpen s m scope map) (name : String) :
    ∃ s', Settles (s.performScope scope map (.delete name)) (m.performScope scope (.delete name)).1 s' ∧
      Agree s' (m.performScope scope (.delete name)).2 := by
  obtain ⟨t, u, hopened, hmirrors, htable⟩ := h.opened
  rw [MemoryStore.performScope, MemoryStore.scopeDelete]
  cases hremove : s.document.removeEntry map (scope.normalize name) with
  | none =>
    rcases htable.remove? (scope.normalize name) with ⟨-, hcontains⟩ | ⟨u', hu', -⟩
    · refine ⟨s, ?_, ?_⟩
      · rw [performScope, FileStore.scopeDelete, hremove]
        simp only [hcontains, pure_bind]
        exact settles_pure fun _ heq ↦ by cases heq
      · simp only [hcontains]
        exact h.agree
    · rw [hopened.remove?_eq_none hremove] at hu'
      cases hu'
  | some result =>
    obtain ⟨d, entry⟩ := result
    obtain ⟨u', t', hu', ht', hholds⟩ := hopened.removeEntry hremove
    rcases htable.remove? (scope.normalize name) with ⟨hnone, -⟩ | ⟨u₁, hu₁, hcontains, htable₁⟩
    · rw [hu'] at hnone
      cases hnone
    · obtain rfl := Option.some.inj (hu₁.symm.trans hu')
      refine ⟨{ s with document := d }, ?_, t', hholds, ?_, ?_⟩
      · simp only [hcontains]
        exact settles_of_leaves (.delete hremove)
      · simp only [hcontains]
        exact hmirrors.updateScope htable₁ ht'
      · simp only [hcontains, if_true, MemoryStore.environment_setScopeTable]
        exact h.environment

/-! ## Operations -/

/-- Writing all files settles, and leaves the aliases open. -/
theorem Agree.writeAll (h : Agree s m) (findShell : ShellFinder) :
    ∃ s', Settles (s.perform findShell .writeAll) (.ok .done) s' ∧ Agree s' m := by
  obtain ⟨s₁, map, hopen, hagree⟩ := h.openScope .aliases
  have hmain := filesOnly_write s
  have hsettles := settles_of_filesOnly (filesOnly_writeScope s₁ .aliases map) s₁
  refine ⟨s₁, ⟨?_, sparesFiles_ok _, fun result' s' hyields hspares ↦ ?_⟩, hagree.agree⟩
  · obtain ⟨outcome, hwrite, hyields⟩ := yields_bind.1 hsettles.yields
    refine yields_bind.2 ⟨(outcome, s₁), yields_bind.2 ⟨.ok (), hmain.1, ?_⟩, hyields⟩
    simp only [hopen]
    exact yields_bind.2 ⟨outcome, hwrite, .done _⟩
  · obtain ⟨⟨outcome, s₂⟩, hall, hyields⟩ := yields_bind.1 hyields
    obtain ⟨first, hfirst, hall⟩ := yields_bind.1 hall
    cases first with
    | error e =>
      obtain ⟨rfl, rfl⟩ := Prod.mk.inj (yields_pure.1 hall)
      obtain ⟨rfl, rfl⟩ := Prod.mk.inj (yields_pure.1 hyields)
      obtain ⟨cause, rfl⟩ := hmain.2 e hfirst
      exact absurd rfl (hspares cause)
    | ok =>
      simp only [hopen] at hall
      obtain ⟨outcome', hwrite, hall⟩ := yields_bind.1 hall
      obtain ⟨rfl, rfl⟩ := Prod.mk.inj (yields_pure.1 hall)
      exact hsettles.unique result' s' (yields_bind.2 ⟨outcome', hwrite, hyields⟩) hspares

/-- Each operation but the expansion of an alias comes to the same answer in both stores. -/
theorem Agree.perform (h : Agree s m) (findShell : ShellFinder) (hspares : operation.SparesTables)
    (hexpand : ∀ invocation, operation ≠ .expand invocation) :
    ∃ result s' m', Settles (s.perform findShell operation) result s' ∧
      m.perform findShell operation = pure (result.withoutSource, m') ∧ Agree s' m' := by
  cases operation with
  | get host key =>
    refine ⟨_, s, m, settles_pure (sparesFiles_ok _), ?_, h⟩
    rw [MemoryStore.perform, h.get]
    rfl
  | getWithSource host key =>
    refine ⟨_, s, m, settles_pure (sparesFiles_ok _), ?_, h⟩
    have hsource : m.getWithSource host key = ((s.getWithSource host key).1, MemoryStore.source) := by
      rw [h.getWithSource, memory_getWithSource]
    rw [MemoryStore.perform, hsource]
    rfl
  | set host key value =>
    obtain ⟨s', hset, hagree⟩ := h.set hspares
    refine ⟨.ok .done, s', _, ?_, rfl, hagree⟩
    rw [FileStore.perform, hset]
    exact settles_pure (sparesFiles_ok _)
  | hosts =>
    refine ⟨_, s, m, settles_pure ?_, ?_, h⟩
    · cases s.hosts with
      | ok names => exact sparesFiles_ok _
      | error fault => exact fun _ heq ↦ by cases heq
    · rw [MemoryStore.perform, h.hosts]
      cases m.hosts <;> rfl
  | unsetHost host => exact ⟨_, _, _, settles_pure (sparesFiles_ok _), rfl, h.unsetHost host⟩
  | write => exact ⟨_, s, m, settles_of_filesOnly (filesOnly_write s) s, rfl, h⟩
  | writeAll =>
    obtain ⟨s', hsettles, hagree⟩ := h.writeAll findShell
    exact ⟨_, s', m, hsettles, rfl, hagree⟩
  | expand invocation => exact absurd rfl (hexpand invocation)
  | scope scope operation =>
    obtain ⟨s₁, map, hopen, hagree⟩ := h.openScope scope
    simp only [FileStore.perform, hopen]
    cases operation with
    | get name =>
      refine ⟨_, s₁, m, settles_pure (sparesFiles_ok _), ?_, hagree.agree⟩
      rw [MemoryStore.perform, MemoryStore.performScope, hagree.scopeGet?]
      rfl
    | set name value =>
      obtain ⟨s', hsettles, hagree'⟩ := hagree.scopeSet name value
      exact ⟨_, s', _, hsettles, rfl, hagree'⟩
    | delete name =>
      obtain ⟨s', hsettles, hagree'⟩ := hagree.scopeDelete name
      refine ⟨_, s', _, hsettles, ?_, hagree'⟩
      rw [MemoryStore.perform, MemoryStore.performScope]
      cases m.scopeDelete scope name <;> rfl
    | all =>
      refine ⟨_, s₁, m, settles_pure (sparesFiles_ok _), ?_, hagree.agree⟩
      rw [MemoryStore.perform, MemoryStore.performScope, hagree.scopeAll]
      rfl
    | write =>
      exact ⟨_, s₁, m, settles_of_filesOnly (filesOnly_writeScope s₁ scope map) s₁, rfl, hagree.agree⟩

/-- The expansion of an alias is the same program in both stores. -/
theorem Agree.expand (h : Agree s m) (findShell : ShellFinder) (invocation : List String) :
    ∃ s₁, Agree s₁ m ∧
      s.perform findShell (.expand invocation) =
        (do
          let result ← Alias.expandWith m.aliases findShell invocation
          return ((result.mapError AliasError.expansion).map .expansion, s₁)) ∧
      m.perform findShell (.expand invocation) =
        (do
          let result ← Alias.expandWith m.aliases findShell invocation
          return ((result.mapError AliasError.expansion).map .expansion, m)) := by
  obtain ⟨s₁, map, hopen, hagree⟩ := h.openScope .aliases
  refine ⟨s₁, hagree.agree, ?_, ?_⟩
  · rw [FileStore.perform, FileStore.expand]
    simp only [hopen, bind_assoc, pure_bind, hagree.scopeAll]
    rfl
  · rw [MemoryStore.perform, MemoryStore.expand]
    simp only [bind_assoc, pure_bind]

/-- An expansion never fails at a file and tells no source. -/
theorem spares_expansion (result : Except Alias.ExpandError Alias.Expansion) :
    Result.SparesFiles ((result.mapError AliasError.expansion).map .expansion) ∧
      Result.withoutSource ((result.mapError AliasError.expansion).map .expansion) =
        (result.mapError AliasError.expansion).map .expansion := by
  cases result with
  | ok value => exact ⟨sparesFiles_ok _, rfl⟩
  | error e => exact ⟨(fun _ heq ↦ by cases heq), rfl⟩

/-- What the store in files answers, the store in memory answers. -/
theorem Agree.memory_yields (h : Agree s m) (hspares : operation.SparesTables)
    (hyields : (s.perform findShell operation).Yields (result, s')) (hfiles : result.SparesFiles) :
    ∃ m', (m.perform findShell operation).Yields (result.withoutSource, m') ∧ Agree s' m' := by
  by_cases hexpand : ∃ invocation, operation = .expand invocation
  · obtain ⟨invocation, rfl⟩ := hexpand
    obtain ⟨s₁, hagree, hfile, hmemory⟩ := h.expand findShell invocation
    rw [hfile] at hyields
    obtain ⟨outcome, hexpansion, hyields⟩ := yields_bind.1 hyields
    obtain ⟨rfl, rfl⟩ := Prod.mk.inj (yields_pure.1 hyields)
    refine ⟨m, ?_, hagree⟩
    rw [hmemory, (spares_expansion outcome).2]
    exact yields_bind.2 ⟨outcome, hexpansion, .done _⟩
  · obtain ⟨result', s₁, m', hsettles, hmemory, hagree⟩ :=
      h.perform findShell hspares fun invocation heq ↦ hexpand ⟨invocation, heq⟩
    obtain ⟨rfl, rfl⟩ := hsettles.unique result s' hyields hfiles
    rw [hmemory]
    exact ⟨m', .done _, hagree⟩

/-- What the store in memory answers, the store in files can answer. -/
theorem Agree.file_yields (h : Agree s m) (hspares : operation.SparesTables)
    (hyields : (m.perform findShell operation).Yields (result, m')) :
    ∃ result' s', (s.perform findShell operation).Yields (result', s') ∧ result'.SparesFiles ∧
      result'.withoutSource = result ∧ Agree s' m' := by
  by_cases hexpand : ∃ invocation, operation = .expand invocation
  · obtain ⟨invocation, rfl⟩ := hexpand
    obtain ⟨s₁, hagree, hfile, hmemory⟩ := h.expand findShell invocation
    rw [hmemory] at hyields
    obtain ⟨outcome, hexpansion, hyields⟩ := yields_bind.1 hyields
    obtain ⟨rfl, rfl⟩ := Prod.mk.inj (yields_pure.1 hyields)
    refine ⟨_, s₁, ?_, (spares_expansion outcome).1, (spares_expansion outcome).2, hagree⟩
    rw [hfile]
    exact yields_bind.2 ⟨outcome, hexpansion, .done _⟩
  · obtain ⟨result', s₁, m₁, hsettles, hmemory, hagree⟩ :=
      h.perform findShell hspares fun invocation heq ↦ hexpand ⟨invocation, heq⟩
    rw [hmemory] at hyields
    obtain ⟨rfl, rfl⟩ := Prod.mk.inj (yields_pure.1 hyields)
    exact ⟨result', s₁, hsettles.yields, hsettles.spares, rfl, hagree⟩

/-! ## Many operations -/

theorem Agree.answers_iff (h : Agree s m) {operations : List Operation}
    (hspares : ∀ operation ∈ operations, operation.SparesTables) (results : List Result) :
    (∃ found, Answers findShell s operations found ∧ found.map Result.withoutSource = results) ↔
      MemoryStore.Answers findShell m operations results := by
  induction operations generalizing s m results with
  | nil =>
    constructor
    · rintro ⟨found, hanswers, rfl⟩
      cases hanswers
      exact .nil m
    · intro hanswers
      cases hanswers
      exact ⟨[], .nil s, rfl⟩
  | cons operation operations ih =>
    obtain ⟨hfirst, hrest⟩ := List.forall_mem_cons.1 hspares
    constructor
    · rintro ⟨found, hanswers, rfl⟩
      cases hanswers with
      | cons hyields hfiles hanswers =>
        obtain ⟨m', hyields', hagree⟩ := h.memory_yields hfirst hyields hfiles
        exact .cons hyields' ((ih hagree hrest _).1 ⟨_, hanswers, rfl⟩)
    · intro hanswers
      cases hanswers with
      | cons hyields hanswers =>
        obtain ⟨result', s', hyields', hfiles, rfl, hagree⟩ := h.file_yields hfirst hyields
        obtain ⟨found, hfound, rfl⟩ := (ih hagree hrest _).2 hanswers
        exact ⟨result' :: found, .cons hyields' hfiles hfound, rfl⟩

/-- An empty store in files and an empty store in memory answer the same to the same operations, as
long as no file fails and no global value is stored under a key of the hosts or of a scope. The
sources of values apart, each sequence of answers of one store is one of the other. -/
theorem answers_iff_memory (locations : Locations) (environment : Environment)
    (findShell : ShellFinder) (operations : List Operation)
    (hspares : ∀ operation ∈ operations, operation.SparesTables) (results : List Result) :
    (∃ found, Answers findShell ⟨Document.empty, locations, environment⟩ operations found ∧
        found.map Result.withoutSource = results) ↔
      MemoryStore.Answers findShell { environment } operations results :=
  (agree_empty locations environment).answers_iff hspares results

/-- A host gets a token, which hides the local one until the host is removed. -/
def tokenOperations : List Operation :=
  [.hosts, .set "git.example.com" "gitlab_token" "a", .scope .localSettings (.set "oauth_token" "b"),
    .get "git.example.com" "token", .unsetHost "git.example.com", .hosts,
    .get "git.example.com" "token", .scope .localSettings (.delete "editor")]

def tokenResults : List Result :=
  [.error (.config (.hosts .missing)), .ok .done, .ok .done, .ok (.text "a"), .ok .done,
    .ok (.names ["gitlab.com"]), .ok (.text "b"),
    .error (.config (.notFound .localSettings "editor"))]

theorem sparesTables_tokenOperations : ∀ operation ∈ tokenOperations, operation.SparesTables := by
  have hset : Operation.SparesTables (.set "git.example.com" "gitlab_token" "a") :=
    fun heq ↦ absurd heq (by decide)
  simp only [tokenOperations, List.forall_mem_cons]
  exact ⟨trivial, hset, trivial, trivial, trivial, trivial, trivial, trivial,
    List.forall_mem_nil _⟩

theorem answers_of_perform {operations : List Operation} {results : List Result}
    (h : m.perform findShell operation = pure (result, m'))
    (hrest : MemoryStore.Answers findShell m' operations results) :
    MemoryStore.Answers findShell m (operation :: operations) (result :: results) := by
  refine .cons ?_ hrest
  rw [h]
  exact .done _

theorem memory_answers_tokenOperations :
    MemoryStore.Answers (pure (.ok "sh")) { environment := {} } tokenOperations tokenResults := by
  obtain ⟨m₁, h₁, m₂, h₂, m₃, h₃, m₄, h₄, m₅, h₅, m₆, h₆, m₇, h₇, m₈, h₈⟩ :
      ∃ m₁, MemoryStore.perform { environment := {} } (pure (.ok "sh")) .hosts =
          pure (.error (.config (.hosts .missing)), m₁) ∧
        ∃ m₂, m₁.perform (pure (.ok "sh")) (.set "git.example.com" "gitlab_token" "a") =
            pure (.ok .done, m₂) ∧
          ∃ m₃, m₂.perform (pure (.ok "sh")) (.scope .localSettings (.set "oauth_token" "b")) =
              pure (.ok .done, m₃) ∧
            ∃ m₄, m₃.perform (pure (.ok "sh")) (.get "git.example.com" "token") =
                pure (.ok (.text "a"), m₄) ∧
              ∃ m₅, m₄.perform (pure (.ok "sh")) (.unsetHost "git.example.com") =
                  pure (.ok .done, m₅) ∧
                ∃ m₆, m₅.perform (pure (.ok "sh")) .hosts = pure (.ok (.names ["gitlab.com"]), m₆) ∧
                  ∃ m₇, m₆.perform (pure (.ok "sh")) (.get "git.example.com" "token") =
                      pure (.ok (.text "b"), m₇) ∧
                    ∃ m₈, m₇.perform (pure (.ok "sh")) (.scope .localSettings (.delete "editor")) =
                      pure (.error (.config (.notFound .localSettings "editor")), m₈) :=
    ⟨_, by cbv, _, by cbv, _, by cbv, _, by cbv, _, by cbv, _, by cbv, _, by cbv, _, by cbv⟩
  exact answers_of_perform h₁ (answers_of_perform h₂ (answers_of_perform h₃ (answers_of_perform h₄
    (answers_of_perform h₅ (answers_of_perform h₆ (answers_of_perform h₇
      (answers_of_perform h₈ (.nil _))))))))

theorem answers_iff_memory_tokenOperations :
    (∀ operation ∈ tokenOperations, operation.SparesTables) ∧
      ∃ found, Answers (pure (.ok "sh")) ⟨Document.empty, plainLocations, {}⟩ tokenOperations found ∧
        found.map Result.withoutSource = tokenResults :=
  ⟨sparesTables_tokenOperations, (answers_iff_memory plainLocations {} (pure (.ok "sh"))
    tokenOperations sparesTables_tokenOperations tokenResults).2 memory_answers_tokenOperations⟩

end FileStore

end LayeredConfig
