import LayeredConfig.Proofs.Document.Orderly
import LayeredConfig.Proofs.Store.Layers
import LayeredConfig.Proofs.Store.ScopeCourse
import LayeredConfig.Store.Legacy

/-!
# Stores that can be reached

A store is reached by loading it, with whatever answers to the file operations, or by wrapping a
document that was read, and then by operations in any order, failing ones too, and by any use of
an open host or an open scope. The document of such a store always has a tree that shares
nothing.
-/

namespace LayeredConfig.FileStore

open LayeredConfig.Document
open LayeredConfig.FileProgram

/-- Changes that are made through an open host. -/
inductive HostSession (map : NodeId) : FileStore → FileStore → Prop
  | opened (s : FileStore) : HostSession map s s
  | set {s s' : FileStore} (h : HostSession map s s') (key value : String) :
      HostSession map s (s'.hostSet map key value).2

/-- Changes that are made through an open scope. -/
inductive ScopeSession (scope : Scope) (map : NodeId) : FileStore → FileStore → Prop
  | opened (s : FileStore) : ScopeSession scope map s s
  | perform {s s' s'' : FileStore} (h : ScopeSession scope map s s') {operation : ScopeOperation}
      {result : Result} (hyields : (s'.performScope scope map operation).Yields (result, s'')) :
      ScopeSession scope map s s''

inductive Reached : FileStore → Prop
  | load {reader : Yaml.Reader} {locations : Locations} {environment : Environment} {s : FileStore}
      (hyields : (FileStore.load reader locations environment).run.Yields (.ok s)) : Reached s
  | wrap {text : String} {d : Document} (hparse : Document.parse text = .ok d)
      (locations : Locations) (environment : Environment) : Reached ⟨d, locations, environment⟩
  | perform {s s' : FileStore} (h : Reached s) {findShell : ShellFinder} {operation : Operation}
      {result : Result} (hyields : (s.perform findShell operation).Yields (result, s')) :
      Reached s'
  | host {s s' s'' : FileStore} (h : Reached s) {host : String} {map : NodeId}
      (hopen : s.openHost host = (.ok map, s')) (hsession : HostSession map s' s'') : Reached s''
  | hostRefused {s s' : FileStore} (h : Reached s) {host : String} {e : ShapeError}
      (hopen : s.openHost host = (.error e, s')) : Reached s'
  | scope {s s' s'' : FileStore} (h : Reached s) {scope : Scope} {map : NodeId}
      (hopen : s.openScope scope = .ok (s', map)) (hsession : ScopeSession scope map s' s'') :
      Reached s''

variable {s s' : FileStore} {t u : Tree} {map : NodeId} {places : List NodeId} {scope : Scope}

/-! ## Loading -/

theorem hangs_ofFile (t : Tree) : (ofFile t).Holds t :=
  ⟨span 1 t.size, (hangs_addTree empty t).frame fun _ _ ↦ rfl, nodup_span _ _⟩

theorem holds_of_parse {text : String} {d : Document} (h : parse text = .ok d) :
    ∃ t, d.Holds t ∧ t.IsFile := by
  rcases ofFile_of_parse h with ⟨foot, hfoot, rfl⟩ | ⟨t, ht, rfl⟩
  · refine ⟨.mapping ⟨[], none, foot⟩ [], ⟨[⟨0⟩], .mapping rfl .nil, List.pairwise_singleton _ _⟩, ?_⟩
    exact .mapping ⟨List.forall_mem_nil _, (fun _ hmem ↦ by cases hmem), hfoot⟩
      (List.forall_mem_nil _) (List.forall_mem_nil _)
  · exact ⟨t, hangs_ofFile t, ht⟩

theorem isMapping_of_isFile (h : t.IsFile) : t.isMapping = true := by
  cases h
  rfl

theorem parse_of_readDocument {path : Path} {d : Document}
    (h : (readDocument path).run.Yields (.ok d)) : ∃ text, parse text = .ok d := by
  obtain ⟨text, -, h⟩ := yields_bind_ok.1 h
  split at h
  · rename_i d' hparse
    have heq := Except.ok.inj (yields_pure.1 h)
    exact ⟨text, heq ▸ hparse⟩
  · have heq := yields_pure.1 h
    cases heq

theorem yields_of_unlessMissing {α : Type} {work : Load α} {a : α}
    (h : (unlessMissing work).run.Yields (.ok (some a))) : work.run.Yields (.ok a) := by
  obtain ⟨result, hwork, h⟩ := yields_bind.1 h
  split at h
  · have heq := Option.some.inj (Except.ok.inj (yields_pure.1 h))
    exact heq ▸ hwork
  · have heq := Except.ok.inj (yields_pure.1 h)
    cases heq
  · have heq := yields_pure.1 h
    cases heq

theorem parse_of_migrate {reader : Yaml.Reader} {text : String} {locations : Locations}
    {environment : Environment} {d : Document}
    (h : (migrate reader text locations environment).run.Yields (.ok d)) :
    ∃ text, parse text = .ok d := by
  obtain ⟨settings, -, h⟩ := yields_bind_ok.1 h
  obtain ⟨converted, -, h⟩ := yields_bind_ok.1 h
  obtain ⟨backup, -, h⟩ := yields_bind_ok.1 h
  obtain ⟨-, -, h⟩ := yields_bind_ok.1 h
  obtain ⟨-, -, h⟩ := yields_bind_ok.1 h
  exact parse_of_readDocument h

theorem parse_of_migrateIfLegacy {reader : Yaml.Reader} {locations : Locations}
    {environment : Environment} {d : Document}
    (h : (migrateIfLegacy reader locations environment).run.Yields (.ok (some d))) :
    ∃ text, parse text = .ok d := by
  obtain ⟨found, -, h⟩ := yields_bind_ok.1 h
  split at h
  · have heq := Except.ok.inj (yields_pure.1 h)
    cases heq
  · split at h
    · obtain ⟨d', hmigrate, h⟩ := yields_bind_ok.1 h
      obtain rfl := Option.some.inj (Except.ok.inj (yields_pure.1 h))
      exact parse_of_migrate hmigrate
    · have heq := Except.ok.inj (yields_pure.1 h)
      cases heq

theorem parse_of_readMain {path : Path} {d : Document}
    (h : (readMain path).run.Yields (.ok d)) : ∃ text, parse text = .ok d := by
  obtain ⟨found, hfound, h⟩ := yields_bind_ok.1 h
  split at h
  · obtain rfl := Except.ok.inj (yields_pure.1 h)
    exact parse_of_readDocument (yields_of_unlessMissing hfound)
  · obtain ⟨-, -, h⟩ := yields_bind_ok.1 h
    exact parse_of_readDocument h

/-- A document into which a scope was merged still has a tree. -/
theorem holds_mergeScope (h : s.document.Holds t) (hmap : t.isMapping = true)
    (hyields : (s.mergeScope scope).run.Yields (.ok s')) :
    ∃ t', s'.document.Holds t' ∧ t'.isMapping = true := by
  obtain ⟨part, -, hyields⟩ := yields_bind_ok.1 hyields
  split at hyields
  · obtain rfl := Except.ok.inj (yields_pure.1 hyields)
    exact ⟨t, h, hmap⟩
  · split at hyields
    · obtain rfl := Except.ok.inj (yields_pure.1 hyields)
      exact ⟨t, h, hmap⟩
    · rename_i tree htree
      obtain rfl := Except.ok.inj (yields_pure.1 hyields)
      obtain ⟨places, hangs, hnodup⟩ := h
      obtain ⟨t', places', ht', hbecomes⟩ :=
        hangs.spliceValue hnodup hmap scope.key tree
      exact ⟨t', hbecomes.holds, Tree.isMapping_update ht'⟩

theorem parse_of_loadMain {reader : Yaml.Reader} {locations : Locations}
    {environment : Environment} {d : Document}
    (h : (loadMain reader locations environment).run.Yields (.ok d)) :
    ∃ text, parse text = .ok d := by
  obtain ⟨found, hfound, h⟩ := yields_bind_ok.1 h
  split at h
  · obtain rfl := Except.ok.inj (yields_pure.1 h)
    exact parse_of_migrateIfLegacy hfound
  · exact parse_of_readMain h

theorem holds_load {reader : Yaml.Reader} {locations : Locations} {environment : Environment}
    (hyields : (load reader locations environment).run.Yields (.ok s)) :
    ∃ t, s.document.Holds t := by
  obtain ⟨d, hmain, hyields⟩ := yields_bind_ok.1 hyields
  obtain ⟨text, hparse⟩ := parse_of_loadMain hmain
  obtain ⟨t, ht, hfile⟩ := holds_of_parse hparse
  obtain ⟨s₁, hs₁, hyields⟩ := yields_bind_ok.1 hyields
  obtain ⟨t₁, ht₁, hmap⟩ := holds_mergeScope ht (isMapping_of_isFile hfile) hs₁
  obtain ⟨t₂, ht₂, -⟩ := holds_mergeScope ht₁ hmap hyields
  exact ⟨t₂, ht₂⟩

/-! ## Changes through an open mapping -/

theorem part_setAt (h : Part s.document u map places) (key value : String) :
    ∃ u' places', Part (s.setAt map key value).2.document u' map places' := by
  cases hset : s.setAt map key value with
  | mk outcome s' =>
    cases outcome with
    | error e =>
      obtain rfl := (setAt_eq_error hset).2
      exact ⟨u, places, h⟩
    | ok =>
      obtain ⟨d, entry, htext, rfl⟩ := setAt_eq_ok hset
      obtain ⟨u', places', -, hbecomes⟩ := h.hangs.setText h.nodup htext
      exact ⟨u', places', h.becomes hbecomes⟩

theorem part_hostSession (h : Part s.document u map places) (hsession : HostSession map s s') :
    ∃ u' places', Part s'.document u' map places' := by
  induction hsession with
  | opened => exact ⟨u, places, h⟩
  | set _ key value ih =>
    obtain ⟨u', places', h'⟩ := ih
    exact part_setAt h' _ value

theorem part_outcome (h : Part s.document u map places) {operation : ScopeOperation}
    {result : Result} (houtcome : ScopeOutcome s scope map operation result s') :
    ∃ u' places', Part s'.document u' map places' := by
  obtain rfl | ⟨document, hleaves, rfl⟩ := houtcome.eq_or_leaves
  · exact ⟨u, places, h⟩
  · obtain ⟨u', places', -, hbecomes⟩ := hleaves.becomes h.hangs h.nodup
    exact ⟨u', places', h.becomes hbecomes⟩

theorem part_scopeSession (h : Part s.document u map places)
    (hsession : ScopeSession scope map s s') : ∃ u' places', Part s'.document u' map places' := by
  induction hsession with
  | opened => exact ⟨u, places, h⟩
  | perform _ hyields ih =>
    obtain ⟨u', places', h'⟩ := ih
    exact part_outcome h' (scopeOutcome_of_yields hyields)

/-! ## Opened mappings -/

theorem part_openHost (h : s.document.Holds t) {host : String}
    (hopen : s.openHost host = (.ok map, s')) : ∃ u places, Part s'.document u map places := by
  obtain ⟨places, hpart⟩ := h.part
  obtain ⟨d, hosts, d', hhosts, hmap, rfl⟩ := openHost_eq_ok hopen
  obtain ⟨u, uPlaces, -, -, hinside⟩ := hpart.hangs.ensureMapping hpart.nodup hhosts
  obtain ⟨w, wPlaces, -, -, hinside'⟩ := hinside.hangs.ensureMapping hinside.nodup hmap
  exact ⟨w, wPlaces, (hpart.inside hinside).inside hinside'⟩

theorem part_openScope (h : s.document.Holds t) (hopen : s.openScope scope = .ok (s', map)) :
    ∃ u places, Part s'.document u map places := by
  obtain ⟨places, hpart⟩ := h.part
  obtain ⟨d, hensure, rfl⟩ := openScope_eq_ok hopen
  obtain ⟨u, uPlaces, -, -, hinside⟩ := hpart.hangs.ensureMapping hpart.nodup hensure
  exact ⟨u, uPlaces, hpart.inside hinside⟩

/-! ## Operations -/

theorem holds_transition (h : s.document.Holds t) (htransition : Transition s s') :
    ∃ t', s'.document.Holds t' := by
  cases htransition with
  | same => exact ⟨t, h⟩
  | set host key value =>
    cases hset : s.set host key value with
    | mk outcome s₁ =>
      cases outcome with
      | error e =>
        obtain rfl := eq_of_set_error hset
        exact ⟨t, h⟩
      | ok =>
        obtain ⟨t', -, ht', -⟩ := holds_set h hset
        exact ⟨t', ht'⟩
  | unsetHost host =>
    by_cases hhost : host.isEmpty = true
    · rw [unsetHost, if_pos hhost]
      exact ⟨t, h⟩
    · exact ⟨_, holds_unsetHost h hhost⟩
  | opened hopen =>
    obtain ⟨u, places, hpart⟩ := part_openScope h hopen
    exact hpart.holds
  | scope hopen houtcome =>
    obtain ⟨u, places, hpart⟩ := part_openScope h hopen
    obtain ⟨u', places', hpart'⟩ := part_outcome hpart houtcome
    exact hpart'.holds

/-- The document of a store that is reached has a tree that shares nothing. -/
theorem Reached.holds (h : Reached s) : ∃ t, s.document.Holds t := by
  induction h with
  | load hyields => exact holds_load hyields
  | wrap hparse =>
    obtain ⟨t, ht, -⟩ := holds_of_parse hparse
    exact ⟨t, ht⟩
  | perform _ hyields ih =>
    obtain ⟨t, ht⟩ := ih
    exact holds_transition ht (transition_of_yields hyields)
  | host _ hopen hsession ih =>
    obtain ⟨t, ht⟩ := ih
    obtain ⟨u, places, hpart⟩ := part_openHost ht hopen
    obtain ⟨u', places', hpart'⟩ := part_hostSession hpart hsession
    exact hpart'.holds
  | hostRefused _ hopen ih =>
    obtain rfl := eq_of_openHost_error hopen
    exact ih
  | scope _ hopen hsession ih =>
    obtain ⟨t, ht⟩ := ih
    obtain ⟨u, places, hpart⟩ := part_openScope ht hopen
    obtain ⟨u', places', hpart'⟩ := part_scopeSession hpart hsession
    exact hpart'.holds

end LayeredConfig.FileStore
