import LayeredConfig.Proofs.Document.DistinctKeys
import LayeredConfig.Proofs.Store.ThreeFiles

/-!
# What calls do to the tree

A call that succeeds stores one text in the tree or takes one key away. A call that is refused
leaves the tree as it was, apart from an empty mapping that it may have made for a scope.
-/

namespace LayeredConfig.FileStore

open LayeredConfig.Tree
open LayeredConfig.Document
open LayeredConfig.FileProgram

variable {s s' s₁ : FileStore} {t t' u : Tree} {scope : Scope} {map : NodeId}
  {host key name value : String} {d : Document} {entry : Entry} {findShell : ShellFinder}

/-! ## Open scopes -/

/-- An open scope: the tree of its mapping, which becomes the value under its key. -/
structure Opened (t : Tree) (scope : Scope) (s₁ : FileStore) (map : NodeId) (u : Tree) : Prop where
  isMapping : u.isMapping = true
  opens : ∀ g, inside scope.key g (t.lookup? scope.key) = g u
  hangs : ∃ places, Hangs s₁.document u map places ∧ places.Nodup ∧
    ∀ {d : Document} {w : Tree} {places' : List NodeId}, Becomes s₁.document places d w map places' →
      ∃ t', t.update scope.key (fun _ ↦ .ok w) = .ok t' ∧ d.Holds t'

theorem opened_of_openScope (h : s.document.Holds t) (hopen : s.openScope scope = .ok (s₁, map)) :
    ∃ u, Opened t scope s₁ map u ∧ s₁.locations = s.locations ∧ s₁.environment = s.environment := by
  obtain ⟨places, hangs, hnodup⟩ := h
  obtain ⟨d, hensure, rfl⟩ := openScope_eq_ok hopen
  obtain ⟨u, uPlaces, humap, hu, hinside⟩ := hangs.ensureMapping hnodup hensure
  refine ⟨u, ⟨humap, hu, uPlaces, hinside.hangs, hinside.nodup, fun hw ↦ ?_⟩, rfl, rfl⟩
  obtain ⟨t', places', ht', hbecomes⟩ := hinside.lift hw
  exact ⟨t', ht', hbecomes.holds⟩

theorem exists_openScope {t₁ : Tree} (h : s.document.Holds t)
    (ht : t.update scope.key (inside scope.key .ok) = .ok t₁) :
    ∃ s₁ map, s.openScope scope = .ok (s₁, map) := by
  obtain ⟨places, hangs, hnodup⟩ := h
  cases hopen : s.openScope scope with
  | ok result => exact ⟨result.1, result.2, rfl⟩
  | error e =>
    rw [hangs.update_of_ensureMapping_error hnodup (openScope_eq_error hopen)] at ht
    cases ht

namespace Opened

/-- Opening a scope makes of the tree what opening makes of the value under its key. -/
theorem exists_opened (h : Opened t scope s₁ map u) :
    ∃ t₁, t.update scope.key (inside scope.key .ok) = .ok t₁ ∧ s₁.document.Holds t₁ ∧
      t₁.lookup? scope.key = some u := by
  obtain ⟨places, hangs, hnodup, hlift⟩ := h.hangs
  obtain ⟨t₁, ht₁, hholds⟩ := hlift (.refl hangs hnodup)
  obtain ⟨v, hv, hlookup⟩ := lookup?_update ht₁
  obtain rfl := Except.ok.inj hv
  refine ⟨t₁, ?_, hholds, hlookup⟩
  rw [← ht₁]
  exact update_congr (h.opens .ok)

theorem setText (h : Opened t scope s₁ map u)
    (hset : s₁.document.setText map name value = .ok (d, entry)) :
    ∃ u' t', u.update name (storeText name value) = .ok u' ∧
      t.update scope.key (fun _ ↦ .ok u') = .ok t' ∧ d.Holds t' := by
  obtain ⟨places, hangs, hnodup, hlift⟩ := h.hangs
  obtain ⟨u', places', hu', hbecomes⟩ := hangs.setText hnodup hset
  obtain ⟨t', ht', hholds⟩ := hlift hbecomes
  exact ⟨u', t', hu', ht', hholds⟩

theorem exists_setText {u' : Tree} (h : Opened t scope s₁ map u)
    (hu : u.update name (storeText name value) = .ok u') :
    ∃ d entry, s₁.document.setText map name value = .ok (d, entry) := by
  obtain ⟨places, hangs, hnodup, -⟩ := h.hangs
  cases hset : s₁.document.setText map name value with
  | ok result => exact ⟨result.1, result.2, rfl⟩
  | error e =>
    rw [hangs.update_of_setText_error hnodup hset] at hu
    cases hu

theorem removeEntry (h : Opened t scope s₁ map u)
    (hremove : s₁.document.removeEntry map name = some (d, entry)) :
    ∃ u' t', u.remove? name = some u' ∧ t.update scope.key (fun _ ↦ .ok u') = .ok t' ∧
      d.Holds t' := by
  obtain ⟨places, hangs, hnodup, hlift⟩ := h.hangs
  obtain ⟨u', places', hu', hbecomes⟩ := hangs.removeEntry hnodup hremove
  obtain ⟨t', ht', hholds⟩ := hlift hbecomes
  exact ⟨u', t', hu', ht', hholds⟩

theorem remove?_eq_none (h : Opened t scope s₁ map u)
    (hremove : s₁.document.removeEntry map name = none) : u.remove? name = none := by
  obtain ⟨places, hangs, hnodup, -⟩ := h.hangs
  exact hangs.remove?_eq_none hremove

/-- Removing from the open mapping is removing below the key of the scope. -/
theorem dropBelow_eq {u' t₁ : Tree} (h : Opened t scope s₁ map u)
    (hopened : t.update scope.key (inside scope.key .ok) = .ok t₁) (hu : u.remove? name = some u')
    (ht : t.update scope.key (fun _ ↦ .ok u') = .ok t') : t₁.dropBelow scope.key name = t' := by
  have hlookup : t₁.lookup? scope.key = some u := by
    obtain ⟨v, hv, hlookup⟩ := lookup?_update hopened
    rw [h.opens] at hv
    rw [hlookup, Except.ok.inj hv]
  apply Tree.dropBelow_eq (u := u')
  · rw [hlookup]
    exact hu
  · rw [update_update hopened, ht]

end Opened

/-! ## Calls -/

/-- What a call that succeeded has made of the tree. -/
inductive Call.Applied : Call → Tree → Tree → Prop
  | set {host key value : String} {t t' : Tree}
      (h : storeSetting host (Key.canonical key) value t = .ok t') : Applied (.set host key value) t t'
  | unsetNone (t : Tree) : Applied (.unsetHost "") t t
  | unsetHost {host : String} (hhost : host ≠ "") (t : Tree) :
      Applied (.unsetHost host) t (t.dropBelow "hosts" host)
  | scopeSet {scope : Scope} {name value : String} {t t' : Tree}
      (h : storeAt value scope.key [scope.normalize name] t = .ok t') :
      Applied (.scopeSet scope name value) t t'
  | scopeDelete {scope : Scope} {name : String} {t t₁ : Tree}
      (h : t.update scope.key (inside scope.key .ok) = .ok t₁) :
      Applied (.scopeDelete scope name) t (t₁.dropBelow scope.key (scope.normalize name))

/-- What a refused call has made of the tree. -/
inductive Refused : Tree → Tree → Prop
  | kept (t : Tree) : Refused t t
  | opened {t t' : Tree} (scope : Scope) (h : t.update scope.key (inside scope.key .ok) = .ok t') :
      Refused t t'

theorem applied_of_yields (h : s.document.Holds t) {call : Call} {answer : Answer}
    (hyields : (s.perform findShell call.operation).Yields (.ok answer, s')) :
    ∃ t', call.Applied t t' ∧ s'.document.Holds t' ∧ s'.environment = s.environment := by
  cases call with
  | set host key value =>
    obtain ⟨t', hstore, ht', -, henvironment⟩ := holds_set h (set_of_yields hyields)
    exact ⟨t', .set hstore, ht', henvironment⟩
  | unsetHost host =>
    obtain rfl := (Prod.mk.inj (yields_pure.1 hyields)).2
    by_cases hhost : host.isEmpty = true
    · obtain rfl := String.isEmpty_iff.1 hhost
      exact ⟨t, .unsetNone t, h, rfl⟩
    · exact ⟨_, .unsetHost (fun heq ↦ hhost (String.isEmpty_iff.2 heq)) t, holds_unsetHost h hhost,
        environment_unsetHost s host⟩
  | scopeSet scope name value =>
    obtain ⟨s₁, map, d, entry, hopen, htext, rfl⟩ := scopeSet_of_yields hyields
    obtain ⟨u, hopened, -, henvironment⟩ := opened_of_openScope h hopen
    obtain ⟨u', t', hu', hupdate, ht'⟩ := hopened.setText htext
    exact ⟨t', .scopeSet (storeAt_of_inside hopened.opens hu' hupdate), ht', henvironment⟩
  | scopeDelete scope name =>
    obtain ⟨s₁, map, d, entry, hopen, hremove, rfl⟩ := scopeDelete_of_yields hyields
    obtain ⟨u, hopened, -, henvironment⟩ := opened_of_openScope h hopen
    obtain ⟨t₁, ht₁, -, -⟩ := hopened.exists_opened
    obtain ⟨u', t', hu', hupdate, ht'⟩ := hopened.removeEntry hremove
    refine ⟨_, .scopeDelete ht₁, ?_, henvironment⟩
    rw [hopened.dropBelow_eq ht₁ hu' hupdate]
    exact ht'

theorem refused_of_open (h : s.document.Holds t) (hopen : s.openScope scope = .ok (s₁, map)) :
    ∃ t', Refused t t' ∧ s₁.document.Holds t' ∧ s₁.environment = s.environment := by
  obtain ⟨u, hopened, -, henvironment⟩ := opened_of_openScope h hopen
  obtain ⟨t₁, ht₁, hholds, -⟩ := hopened.exists_opened
  exact ⟨t₁, .opened scope ht₁, hholds, henvironment⟩

theorem yields_scopeSet (hopen : s.openScope scope = .ok (s₁, map))
    (hset : s₁.document.setText map (scope.normalize name) value = .ok (d, entry)) :
    (s.perform findShell (.scope scope (.set name value))).Yields
      (.ok .done, { s₁ with document := d }) := by
  rw [perform, hopen]
  dsimp only
  rw [performScope_of_leaves (.set hset)]
  exact yields_write _ scope map

theorem yields_scopeDelete (hopen : s.openScope scope = .ok (s₁, map))
    (hremove : s₁.document.removeEntry map (scope.normalize name) = some (d, entry)) :
    (s.perform findShell (.scope scope (.delete name))).Yields
      (.ok .done, { s₁ with document := d }) := by
  rw [perform, hopen]
  dsimp only
  rw [performScope_of_leaves (.delete hremove)]
  exact yields_write _ scope map

/-- An operation of a scope that fails before its file is written. -/
theorem refused_of_scope (h : s.document.Holds t) {operation : ScopeOperation} {e : AliasError}
    (hyields : (s.perform findShell (.scope scope operation)).Yields (.error e, s'))
    (hfile : ∀ cause, e ≠ .config (.file cause)) :
    ∃ t', Refused t t' ∧ s'.document.Holds t' ∧ s'.environment = s.environment := by
  rw [perform] at hyields
  split at hyields
  · obtain ⟨-, rfl⟩ := Prod.mk.inj (yields_pure.1 hyields)
    exact ⟨t, .kept t, h, rfl⟩
  · rename_i s₁ map hopen
    cases scopeOutcome_of_yields hyields with
    | refused => exact refused_of_open h hopen
    | notWritten => exact absurd rfl (hfile _)

theorem refused_of_yields (h : s.document.Holds t) {call : Call} {e : AliasError}
    (hyields : (s.perform findShell call.operation).Yields (.error e, s'))
    (hfile : ∀ cause, e ≠ .config (.file cause)) :
    ∃ t', Refused t t' ∧ s'.document.Holds t' ∧ s'.environment = s.environment := by
  cases call with
  | set host key value =>
    cases hset : s.set host key value with
    | mk outcome s₁ =>
      rw [Call.operation, perform, hset] at hyields
      obtain ⟨hresult, rfl⟩ := Prod.mk.inj (yields_pure.1 hyields)
      cases outcome with
      | error e =>
        obtain rfl := eq_of_set_error hset
        exact ⟨t, .kept t, h, rfl⟩
      | ok => cases hresult
  | unsetHost host => cases (Prod.mk.inj (yields_pure.1 hyields)).1
  | scopeSet scope name value => exact refused_of_scope h hyields hfile
  | scopeDelete scope name => exact refused_of_scope h hyields hfile

end LayeredConfig.FileStore
