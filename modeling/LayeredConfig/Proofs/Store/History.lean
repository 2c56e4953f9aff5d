import LayeredConfig.Proofs.Store.Calls
import LayeredConfig.Proofs.Store.Isolation
import LayeredConfig.Proofs.Store.Reload

/-!
# Settings after many calls

Each layer of a setting remembers the last call that was about it. Whatever calls were made after
a store was loaded, a setting is the first value that is not empty among the environment, what was
last stored for the host, what was last stored locally, and what was last stored globally.
-/

namespace LayeredConfig.FileStore

open LayeredConfig.Tree
open LayeredConfig.Document
open LayeredConfig.FileProgram

variable {s s' : FileStore} {t t' : Tree} {host key : String} {calls : List Call}
  {findShell : ShellFinder}

/-! ## What was last stored -/

namespace Call

/-- What is stored under a canonical key of a host behind a call that succeeded. -/
def atHost (host key : String) (stored : Option String) : Call → Option String
  | set host' key' value => if host' = host ∧ Key.canonical key' = key then some value else stored
  | unsetHost host' => if host' = host then none else stored
  | _ => stored

/-- What is stored locally under a canonical key behind a call that succeeded. -/
def atLocal (key : String) (stored : Option String) : Call → Option String
  | scopeSet .localSettings name value => if Key.canonical name = key then some value else stored
  | scopeDelete .localSettings name => if Key.canonical name = key then none else stored
  | _ => stored

/-- What is stored globally under a canonical key behind a call that succeeded. -/
def atTop (key : String) (stored : Option String) : Call → Option String
  | set host key' value => if host = "" ∧ Key.canonical key' = key then some value else stored
  | _ => stored

end Call

/-- The first of some values that is there and not empty. -/
def firstValue? (values : List (Option String)) : Option String :=
  values.findSome? nonEmpty?

/-- Calls one after another, none of which fails at a file, with those among them that succeed. -/
inductive History (findShell : ShellFinder) : FileStore → List Call → FileStore → Prop
  | nil (s : FileStore) : History findShell s [] s
  | done {s s' s'' : FileStore} {call : Call} {calls : List Call} {answer : Answer}
      (hyields : (s.perform findShell call.operation).Yields (.ok answer, s'))
      (h : History findShell s' calls s'') : History findShell s (call :: calls) s''
  | refused {s s' s'' : FileStore} {call : Call} {calls : List Call} {e : AliasError}
      (hyields : (s.perform findShell call.operation).Yields (.error e, s'))
      (hfile : ∀ cause, e ≠ .config (.file cause))
      (h : History findShell s' calls s'') : History findShell s calls s''

/-! ## One call -/

variable {call : Call}

theorem distinctBelow_open {scope : Scope} (h : t.DistinctBelow)
    (ht : t.update scope.key (inside scope.key .ok) = .ok t') : t'.DistinctBelow :=
  h.inside (fun _ hu _ hv ↦ Except.ok.inj hv ▸ hu) ht

theorem distinctBelow_applied (h : t.DistinctBelow) (hcall : call.Applied t t') :
    t'.DistinctBelow := by
  cases hcall with
  | set hstore => exact h.storeAt hstore
  | unsetNone => exact h
  | unsetHost => exact h.dropBelow _ _
  | scopeSet hstore => exact h.storeAt hstore
  | scopeDelete hopen => exact (distinctBelow_open h hopen).dropBelow _ _

theorem distinctBelow_refused (h : t.DistinctBelow) (hrefused : Refused t t') :
    t'.DistinctBelow := by
  cases hrefused with
  | kept => exact h
  | opened scope hopen => exact distinctBelow_open h hopen

/-- A refused call changes no text that is not empty. -/
theorem nonEmpty?_refused (hrefused : Refused t t') (key : String) (path : List String) :
    nonEmpty? (valueAt? (key :: path) t') = nonEmpty? (valueAt? (key :: path) t) := by
  cases hrefused with
  | kept => rfl
  | opened scope hopen => exact nonEmpty?_valueAt?_open hopen

theorem atHost_applied (h : t.DistinctBelow) (hcall : call.Applied t t') (hhost : host ≠ "") :
    nonEmpty? (valueAt? ["hosts", host, key] t') =
      nonEmpty? (call.atHost host key (valueAt? ["hosts", host, key] t)) := by
  cases hcall with
  | @set host' key' value _ _ hstore =>
    rw [Call.atHost]
    split
    · rename_i hsame
      obtain ⟨rfl, rfl⟩ := hsame
      have hfound := valueAt?_storeSetting hstore
      rw [settingPath_of_not_isEmpty fun hempty ↦ hhost (String.isEmpty_iff.1 hempty)] at hfound
      rw [hfound]
    · rename_i hother
      apply nonEmpty?_valueAt?_storeAt hstore
      unfold settingPath
      split
      · simp
      · intro heq
        simp only [List.cons.injEq, and_true, true_and] at heq
        exact hother ⟨heq.1.symm, heq.2.symm⟩
  | unsetNone => rw [Call.atHost, if_neg (Ne.symm hhost)]
  | @unsetHost host' =>
    rw [Call.atHost]
    split
    · rename_i hsame
      subst hsame
      rw [valueAt?_dropBelow h]
    · rename_i hother
      rw [valueAt?_dropBelow_of_ne]
      intro rest heq
      simp only [List.cons.injEq, true_and] at heq
      exact hother heq.1.symm
  | @scopeSet scope _ _ _ _ hstore =>
    apply nonEmpty?_valueAt?_storeAt hstore
    exact fun heq ↦ key_ne_hosts scope (List.cons.inj heq).1.symm
  | @scopeDelete scope _ _ _ hopen =>
    rw [valueAt?_dropBelow_of_ne, nonEmpty?_valueAt?_open hopen]
    · rfl
    · exact fun rest heq ↦ key_ne_hosts scope (List.cons.inj heq).1.symm

theorem atTop_applied (hcall : call.Applied t t') :
    nonEmpty? (valueAt? [key] t') = nonEmpty? (call.atTop key (valueAt? [key] t)) := by
  cases hcall with
  | @set host key' value _ _ hstore =>
    rw [Call.atTop]
    split
    · rename_i hsame
      obtain ⟨rfl, rfl⟩ := hsame
      have hfound := valueAt?_storeSetting hstore
      rw [settingPath_of_isEmpty rfl] at hfound
      rw [hfound]
    · rename_i hother
      apply nonEmpty?_valueAt?_storeAt hstore
      unfold settingPath
      split
      · rename_i hempty
        intro heq
        exact hother ⟨String.isEmpty_iff.1 hempty, (List.cons.inj heq).1.symm⟩
      · simp
  | unsetNone => rfl
  | unsetHost =>
    rw [valueAt?_dropBelow_of_ne]
    · rfl
    · simp
  | scopeSet hstore =>
    apply nonEmpty?_valueAt?_storeAt hstore
    simp
  | scopeDelete hopen =>
    rw [valueAt?_dropBelow_of_ne, nonEmpty?_valueAt?_open hopen]
    · rfl
    · simp

theorem atLocal_applied (h : t.DistinctBelow) (hcall : call.Applied t t') :
    nonEmpty? (valueAt? [Scope.localSettings.key, key] t') =
      nonEmpty? (call.atLocal key (valueAt? [Scope.localSettings.key, key] t)) := by
  cases hcall with
  | set hstore =>
    exact nonEmpty?_localValue_storeSetting hstore key
  | unsetNone => rfl
  | unsetHost =>
    rw [valueAt?_dropBelow_of_ne]
    · rfl
    · exact fun rest heq ↦ key_ne_hosts _ (List.cons.inj heq).1
  | @scopeSet scope name value _ _ hstore =>
    cases scope with
    | aliases =>
      apply nonEmpty?_valueAt?_storeAt hstore
      exact fun heq ↦ absurd (List.cons.inj heq).1 (by decide)
    | localSettings =>
      rw [Call.atLocal]
      split
      · rename_i hsame
        subst hsame
        rw [← valueAt?_storeAt hstore]
        rfl
      · rename_i hother
        apply nonEmpty?_valueAt?_storeAt hstore
        intro heq
        simp only [List.cons.injEq, and_true, true_and] at heq
        exact hother heq.symm
  | @scopeDelete scope name _ _ hopen =>
    cases scope with
    | aliases =>
      rw [valueAt?_dropBelow_of_ne, nonEmpty?_valueAt?_open hopen]
      · rfl
      · exact fun rest heq ↦ absurd (List.cons.inj heq).1 (by decide)
    | localSettings =>
      rw [Call.atLocal]
      split
      · rename_i hsame
        subst hsame
        exact congrArg nonEmpty? (valueAt?_dropBelow (distinctBelow_open h hopen) _ _ [])
      · rename_i hother
        rw [valueAt?_dropBelow_of_ne, nonEmpty?_valueAt?_open hopen]
        intro rest heq
        simp only [List.cons.injEq, true_and] at heq
        exact hother heq.1.symm

/-! ## Many calls -/

/-- A layer that takes what a call stores, or keeps what it had, does not tell an empty text from
none. -/
theorem nonEmpty?_foldl {layer : Option String → Call → Option String}
    (hlayer : ∀ a b call, nonEmpty? a = nonEmpty? b → nonEmpty? (layer a call) = nonEmpty? (layer b call))
    {a b : Option String} (h : nonEmpty? a = nonEmpty? b) :
    nonEmpty? (calls.foldl layer a) = nonEmpty? (calls.foldl layer b) := by
  induction calls generalizing a b with
  | nil => exact h
  | cons call calls ih => exact ih (hlayer a b call h)

theorem atHost_congr {a b : Option String} (call : Call) (h : nonEmpty? a = nonEmpty? b) :
    nonEmpty? (call.atHost host key a) = nonEmpty? (call.atHost host key b) := by
  cases call with
  | set =>
    rw [Call.atHost, Call.atHost]
    split
    · rfl
    · exact h
  | unsetHost =>
    rw [Call.atHost, Call.atHost]
    split
    · rfl
    · exact h
  | scopeSet => exact h
  | scopeDelete => exact h

theorem atTop_congr {a b : Option String} (call : Call) (h : nonEmpty? a = nonEmpty? b) :
    nonEmpty? (call.atTop key a) = nonEmpty? (call.atTop key b) := by
  cases call with
  | set =>
    rw [Call.atTop, Call.atTop]
    split
    · rfl
    · exact h
  | unsetHost => exact h
  | scopeSet => exact h
  | scopeDelete => exact h

theorem atLocal_congr {a b : Option String} (call : Call) (h : nonEmpty? a = nonEmpty? b) :
    nonEmpty? (call.atLocal key a) = nonEmpty? (call.atLocal key b) := by
  cases call with
  | set => exact h
  | unsetHost => exact h
  | scopeSet scope =>
    cases scope with
    | aliases => exact h
    | localSettings =>
      rw [Call.atLocal, Call.atLocal]
      split
      · rfl
      · exact h
  | scopeDelete scope =>
    cases scope with
    | aliases => exact h
    | localSettings =>
      rw [Call.atLocal, Call.atLocal]
      split
      · rfl
      · exact h

/-- The layers of a tree hold what calls have left stored in the layers of another one. -/
structure Remembers (t : Tree) (calls : List Call) (t' : Tree) : Prop where
  host : ∀ host key, host ≠ "" → nonEmpty? (valueAt? ["hosts", host, key] t') =
    nonEmpty? (calls.foldl (Call.atHost host key) (valueAt? ["hosts", host, key] t))
  localSettings : ∀ key, nonEmpty? (valueAt? [Scope.localSettings.key, key] t') =
    nonEmpty? (calls.foldl (Call.atLocal key) (valueAt? [Scope.localSettings.key, key] t))
  top : ∀ key, nonEmpty? (valueAt? [key] t') =
    nonEmpty? (calls.foldl (Call.atTop key) (valueAt? [key] t))

theorem Remembers.applied {t₁ : Tree} (h : Remembers t₁ calls t') (hdistinct : t.DistinctBelow)
    (hcall : call.Applied t t₁) : Remembers t (call :: calls) t' where
  host host key hhost := (h.host host key hhost).trans
    (nonEmpty?_foldl (fun _ _ ↦ atHost_congr) (atHost_applied hdistinct hcall hhost))
  localSettings key := (h.localSettings key).trans
    (nonEmpty?_foldl (fun _ _ ↦ atLocal_congr) (atLocal_applied hdistinct hcall))
  top key := (h.top key).trans (nonEmpty?_foldl (fun _ _ ↦ atTop_congr) (atTop_applied hcall))

theorem Remembers.refused {t₁ : Tree} (h : Remembers t₁ calls t') (hrefused : Refused t t₁) :
    Remembers t calls t' where
  host host key hhost := (h.host host key hhost).trans
    (nonEmpty?_foldl (fun _ _ ↦ atHost_congr) (nonEmpty?_refused hrefused _ _))
  localSettings key := (h.localSettings key).trans
    (nonEmpty?_foldl (fun _ _ ↦ atLocal_congr) (nonEmpty?_refused hrefused _ _))
  top key := (h.top key).trans
    (nonEmpty?_foldl (fun _ _ ↦ atTop_congr) (nonEmpty?_refused hrefused _ _))

theorem remembers_of_history (hhistory : History findShell s calls s') (h : s.document.Holds t)
    (hdistinct : t.DistinctBelow) :
    ∃ t', s'.document.Holds t' ∧ s'.environment = s.environment ∧ Remembers t calls t' := by
  induction hhistory generalizing t with
  | nil => exact ⟨t, h, rfl, fun _ _ _ ↦ rfl, fun _ ↦ rfl, fun _ ↦ rfl⟩
  | done hyields _ ih =>
    obtain ⟨t₁, hcall, ht₁, henvironment⟩ := applied_of_yields h hyields
    obtain ⟨t', ht', henvironment', hremembers⟩ := ih ht₁ (distinctBelow_applied hdistinct hcall)
    exact ⟨t', ht', henvironment'.trans henvironment, hremembers.applied hdistinct hcall⟩
  | refused hyields hfile _ ih =>
    obtain ⟨t₁, hrefused, ht₁, henvironment⟩ := refused_of_yields h hyields hfile
    obtain ⟨t', ht', henvironment', hremembers⟩ := ih ht₁ (distinctBelow_refused hdistinct hrefused)
    exact ⟨t', ht', henvironment'.trans henvironment, hremembers.refused hrefused⟩

/-! ## The value of a setting -/

theorem firstNonEmpty?_eq (env : Environment) (names : List String) :
    env.firstNonEmpty? names = firstValue? (names.map env.get?) := by
  rw [Environment.firstNonEmpty?, firstValue?]
  induction names with
  | nil => rfl
  | cons name names ih =>
    rw [List.filterMap_cons, List.map_cons, List.findSome?_cons]
    cases env.get? name with
    | none => exact ih
    | some value =>
      rw [List.find?_cons, ih, nonEmpty?, Option.filter]
      split
      · rename_i hvalue
        rw [if_pos hvalue]
      · rename_i hvalue
        rw [hvalue]
        rfl

/-- The stored value of a setting is the first of its layers that is not empty. -/
theorem getWithSource_fst (s : FileStore) (host key : String) :
    (s.getWithSource host key).1 =
      (firstValue? [if host = "" then none else s.hostValue? host (Key.canonical key),
        s.localValue? (Key.canonical key), s.globalValue? (Key.canonical key)]).getD
      (Key.default (Key.canonical key)) := by
  simp only [getWithSource, nonEmpty?_of_host, firstValue?, List.findSome?_cons, List.findSome?_nil]
  cases nonEmpty? (if host = "" then none else s.hostValue? host (Key.canonical key)) with
  | some value => rfl
  | none =>
    cases nonEmpty? (s.localValue? (Key.canonical key)) with
    | some value => rfl
    | none =>
      cases nonEmpty? (s.globalValue? (Key.canonical key)) with
      | some value => rfl
      | none => rfl

theorem get_eq (s : FileStore) (host key : String) :
    s.get host key = (firstValue? ((Key.variableNames (Key.canonical key)).map s.environment.get? ++
      [if host = "" then none else s.hostValue? host (Key.canonical key),
        s.localValue? (Key.canonical key), s.globalValue? (Key.canonical key)])).getD
      (Key.default (Key.canonical key)) := by
  have happend (values rest : List (Option String)) :
      firstValue? (values ++ rest) = (firstValue? values).or (firstValue? rest) :=
    List.findSome?_append
  rw [get, effectiveValue, firstNonEmpty?_eq, getWithSource_fst, Key.canonical_canonical, happend]
  cases firstValue? ((Key.variableNames (Key.canonical key)).map s.environment.get?) with
  | none => rfl
  | some value => rfl

/-! ## Loaded stores -/

/-- What is loaded from files that repeat no key repeats none right below the top. -/
theorem distinctBelow_overlay {u : Tree} {part : Scope → Option Tree} (h : Overlay t u part)
    (hu : u.NoRepeats) (hpart : ∀ scope v, part scope = some v → v.NoRepeats) : t.DistinctBelow := by
  intro key v hv
  by_cases hkey : key ∈ scopeKeys
  · obtain ⟨scope, rfl⟩ := exists_scope_of_mem hkey
    rw [h.lookup] at hv
    cases hfound : part scope with
    | some w =>
      rw [hfound] at hv
      obtain rfl := Option.some.inj hv
      exact (hpart scope w hfound).distinctKeys
    | none =>
      rw [hfound] at hv
      exact (hu.lookup? hv).distinctKeys
  · rw [← lookup?_without hkey, h.without, lookup?_without hkey] at hv
    exact (hu.lookup? hv).distinctKeys

variable {reader : Yaml.Reader} {locations : Locations} {environment : Environment}
  {disk disk' : Disk}

theorem holds_load_of_noRepeats
    (hload : (load reader locations environment).run.run disk = (.ok s, disk'))
    (hdistinct : ∀ path ∈ [locations.mainFile, locations.aliasesFile, locations.localFile],
      ∀ d, Stored disk' path (some d) → d.NoRepeats) :
    ∃ t, s.document.Holds t ∧ t.DistinctBelow ∧ s.environment = environment := by
  obtain ⟨text, d, part, hread, hparse, hstored, rfl⟩ := load_eq_ok hload
  have hparts : ∀ scope d, part scope = some d → ∃ text, parse text = .ok d :=
    fun scope ↦ exists_parse_of_stored (hstored scope)
  obtain ⟨u, hu, hfile⟩ := holds_of_parse hparse
  obtain ⟨t, ht, hoverlay⟩ := holds_assembled hu (isMapping_of_isFile hfile) hparts locations environment
  refine ⟨t, ht, distinctBelow_overlay hoverlay ?_ fun scope v hv ↦ ?_, environment_assembled ..⟩
  · exact hdistinct _ (by simp) d (.found hread hparse) u hu.tree?
  · obtain ⟨d', hpart, htree⟩ := Option.bind_eq_some_iff.1 hv
    refine hdistinct (scopeFile ⟨d, locations, environment⟩ scope) ?_ d' (hpart ▸ hstored scope) v htree
    cases scope with
    | aliases => simp [scopeFile]
    | localSettings => simp [scopeFile]

/-- A store is loaded from files in which no mapping repeats a key. Behind any calls, a setting is
the first value that is not empty among its environment variables, what was last stored for the
host since the host was last removed, what was last stored locally and not deleted since, and what
was last stored globally, where what was loaded counts as stored first. There is a default in the
end. -/
theorem get_of_history
    (hload : (load reader locations environment).run.run disk = (.ok s, disk'))
    (hdistinct : ∀ path ∈ [locations.mainFile, locations.aliasesFile, locations.localFile],
      ∀ d, Stored disk' path (some d) → d.NoRepeats)
    (hhistory : History findShell s calls s') (host key : String) :
    s'.get host key = (firstValue? ((Key.variableNames (Key.canonical key)).map environment.get? ++
      [if host = "" then none
          else calls.foldl (Call.atHost host (Key.canonical key)) (s.hostValue? host (Key.canonical key)),
        calls.foldl (Call.atLocal (Key.canonical key)) (s.localValue? (Key.canonical key)),
        calls.foldl (Call.atTop (Key.canonical key)) (s.globalValue? (Key.canonical key))])).getD
      (Key.default (Key.canonical key)) := by
  obtain ⟨t, ht, hbelow, henvironment⟩ := holds_load_of_noRepeats hload hdistinct
  obtain ⟨t', ht', henvironment', hremembers⟩ := remembers_of_history hhistory ht hbelow
  have hhost : nonEmpty? (if host = "" then none else s'.hostValue? host (Key.canonical key)) =
      nonEmpty? (if host = "" then none
        else calls.foldl (Call.atHost host (Key.canonical key)) (s.hostValue? host (Key.canonical key))) := by
    split
    · rfl
    · rename_i hne
      rw [hostValue?_eq ht, hostValue?_eq ht', hremembers.host host _ hne]
  have hlocal : nonEmpty? (s'.localValue? (Key.canonical key)) =
      nonEmpty? (calls.foldl (Call.atLocal (Key.canonical key)) (s.localValue? (Key.canonical key))) := by
    rw [localValue?_eq ht, localValue?_eq ht', hremembers.localSettings]
  have hglobal : nonEmpty? (s'.globalValue? (Key.canonical key)) =
      nonEmpty? (calls.foldl (Call.atTop (Key.canonical key)) (s.globalValue? (Key.canonical key))) := by
    rw [globalValue?_eq ht, globalValue?_eq ht', hremembers.top]
  rw [get_eq, henvironment', henvironment]
  simp only [firstValue?, List.findSome?_append, List.findSome?_cons, hhost, hlocal, hglobal]

/-- A main file in which a host has a token. -/
def tokenFile : String :=
  "hosts:\n    git.example.com:\n        token: old\n"

def tokenTree : Tree :=
  .mapping {} [(.scalar {} "hosts" .plain, .mapping {} [(.scalar {} "git.example.com" .plain,
    .mapping {} [(.scalar {} "token" .plain, .scalar {} "old" .plain)])])]

theorem noRepeats_tokenTree : tokenTree.NoRepeats := by
  refine .mapping (List.nodup_singleton _) (List.forall_mem_singleton.2 ?_)
  refine .mapping (List.nodup_singleton _) (List.forall_mem_singleton.2 ?_)
  refine .mapping (List.nodup_singleton _) (List.forall_mem_singleton.2 ?_)
  exact .scalar _ _ _

/-- A setting is refused, the host gets a new token and is removed, and a token is stored locally. -/
theorem get_of_history_tokenFile :
    ∃ s s' : FileStore, (load tokenReader plainLocations {}).run.run (mainOnly tokenFile) =
        (.ok s, mainOnly tokenFile) ∧
      History (pure (.ok "sh")) s [.set "git.example.com" "gitlab_token" "new",
        .unsetHost "git.example.com", .scopeSet .localSettings "gitlab_token" "mine"] s' ∧
      s'.get "git.example.com" "oauth_token" = "mine" := by
  obtain ⟨d, hparse, htree, hrefused, s₁, hset, s₂, hunset, s₃, map, hopen, d', entry, htext⟩ :
      ∃ d, parse tokenFile = .ok d ∧ d.tree? = some tokenTree ∧
        (∃ e, FileStore.set ⟨d, plainLocations, {}⟩ "" "hosts" "x" = (.error e, ⟨d, plainLocations, {}⟩)) ∧
        ∃ s₁, FileStore.set ⟨d, plainLocations, {}⟩ "git.example.com" "gitlab_token" "new" =
            (.ok (), s₁) ∧
          ∃ s₂, s₁.unsetHost "git.example.com" = s₂ ∧
            ∃ s₃ map, s₂.openScope .localSettings = .ok (s₃, map) ∧
              ∃ d' entry, s₃.document.setText map "token" "mine" = .ok (d', entry) :=
    ⟨_, by cbv, by cbv, ⟨_, by cbv⟩, _, by cbv, _, by cbv, _, _, by cbv, _, _, by cbv⟩
  obtain ⟨e, hrefused⟩ := hrefused
  have hload := run_load_mainOnly (isLegacy_tokenReader tokenFile) hparse {}
  have hrefused' : (FileStore.perform ⟨d, plainLocations, {}⟩ (pure (.ok "sh"))
      (Call.set "" "hosts" "x").operation).Yields
        (.error (.config (.shape e)), ⟨d, plainLocations, {}⟩) := by
    rw [Call.operation, perform, hrefused]
    exact .done _
  have hset' : (FileStore.perform ⟨d, plainLocations, {}⟩ (pure (.ok "sh"))
      (Call.set "git.example.com" "gitlab_token" "new").operation).Yields (.ok .done, s₁) := by
    rw [Call.operation, perform, hset]
    exact .done _
  have hunset' : (s₁.perform (pure (.ok "sh")) (Call.unsetHost "git.example.com").operation).Yields
      (.ok .done, s₂) := by
    rw [← hunset]
    exact .done _
  have hlocal : (s₂.perform (pure (.ok "sh"))
      (Call.scopeSet .localSettings "gitlab_token" "mine").operation).Yields
        (.ok .done, { s₃ with document := d' }) :=
    yields_scopeSet hopen htext
  have hhistory := History.refused hrefused' (fun _ heq ↦ by cases heq)
    (.done hset' (.done hunset' (.done hlocal (.nil _))))
  refine ⟨_, _, hload, hhistory, ?_⟩
  rw [get_of_history hload ?_ hhistory]
  · rfl
  · intro path hmem d' hstored
    simp only [List.mem_cons, List.not_mem_nil, or_false] at hmem
    rcases hmem with rfl | rfl | rfl
    · obtain rfl := Option.some.inj ((Stored.found (readText_mainOnly tokenFile) hparse).unique hstored)
      intro t ht
      rw [htree] at ht
      exact Option.some.inj ht ▸ noRepeats_tokenTree
    · cases (stored_mainOnly (s := ⟨d, plainLocations, {}⟩) tokenFile rfl .aliases).unique hstored
    · cases (stored_mainOnly (s := ⟨d, plainLocations, {}⟩) tokenFile rfl .localSettings).unique hstored

end LayeredConfig.FileStore
