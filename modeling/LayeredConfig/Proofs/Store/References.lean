import Mathlib
import LayeredConfig.Proofs.Document.References
import LayeredConfig.Proofs.Store.Reached

/-!
# References of stores that can be reached

The table of a store that can be reached is sound, whatever was stored, removed and merged before
and whatever failed. Whoever follows its references finds a node, and comes to the same node on no
second path.
-/

namespace LayeredConfig.FileStore

open LayeredConfig.Document
open LayeredConfig.FileProgram

variable {s s' : FileStore} {map : NodeId} {scope : Scope}

/-! ## Loading -/

theorem sound_mergeScope (h : s.document.Sound)
    (hyields : (s.mergeScope scope).run.Yields (.ok s')) : s'.document.Sound := by
  obtain ⟨part, hpart, hyields⟩ := yields_bind_ok.1 hyields
  split at hyields
  · obtain rfl := Except.ok.inj (yields_pure.1 hyields)
    exact h
  · obtain ⟨text, hparse⟩ := parse_of_readDocument (yields_of_unlessMissing hpart)
    obtain ⟨-, t, ht, hfile⟩ := sound_of_parse hparse
    rw [ht] at hyields
    obtain rfl := Except.ok.inj (yields_pure.1 hyields)
    exact h.graft hfile scope.key

theorem sound_load {reader : Yaml.Reader} {locations : Locations} {environment : Environment}
    (hyields : (load reader locations environment).run.Yields (.ok s)) : s.document.Sound := by
  obtain ⟨d, hmain, hyields⟩ := yields_bind_ok.1 hyields
  obtain ⟨text, hparse⟩ := parse_of_loadMain hmain
  obtain ⟨s₁, hs₁, hyields⟩ := yields_bind_ok.1 hyields
  exact sound_mergeScope (sound_mergeScope (sound_of_parse hparse).1 hs₁) hyields

/-! ## Operations -/

theorem sound_setAt (h : s.document.Sound) (map : NodeId) (key value : String) :
    (s.setAt map key value).2.document.Sound := by
  unfold setAt
  split
  · exact h
  · rename_i d entry hset
    exact h.setText hset

theorem sound_openHost (h : s.document.Sound) {host : String} {outcome : Except ShapeError NodeId}
    (hopen : s.openHost host = (outcome, s')) : s'.document.Sound := by
  cases outcome with
  | error e =>
    obtain rfl := eq_of_openHost_error hopen
    exact h
  | ok map =>
    obtain ⟨d, hosts, d', hhosts, hmap, rfl⟩ := openHost_eq_ok hopen
    exact (h.ensureMapping hhosts).ensureMapping hmap

theorem sound_openScope (h : s.document.Sound) (hopen : s.openScope scope = .ok (s', map)) :
    s'.document.Sound := by
  obtain ⟨d, hensure, rfl⟩ := openScope_eq_ok hopen
  exact h.ensureMapping hensure

theorem sound_set (h : s.document.Sound) (host key value : String) :
    (s.set host key value).2.document.Sound := by
  unfold set
  split
  · exact sound_setAt h _ _ value
  · split
    · rename_i hopen
      exact sound_openHost h hopen
    · rename_i hopen
      exact sound_setAt (sound_openHost h hopen) _ _ value

theorem sound_unsetHost (h : s.document.Sound) (host : String) :
    (s.unsetHost host).document.Sound := by
  unfold unsetHost
  split
  · exact h
  · split
    · exact h
    · split
      · exact h
      · rename_i d entry hremove
        exact h.removeEntry hremove

theorem sound_outcome (h : s.document.Sound) {operation : ScopeOperation} {result : Result}
    (houtcome : ScopeOutcome s scope map operation result s') : s'.document.Sound := by
  obtain rfl | ⟨document, hleaves, rfl⟩ := houtcome.eq_or_leaves
  · exact h
  · cases hleaves with
    | set htext => exact h.setText htext
    | delete hremove => exact h.removeEntry hremove
    | write => exact h

theorem sound_hostSession (h : s.document.Sound) (hsession : HostSession map s s') :
    s'.document.Sound := by
  induction hsession with
  | opened => exact h
  | set _ key value ih => exact sound_setAt ih _ _ value

theorem sound_scopeSession (h : s.document.Sound) (hsession : ScopeSession scope map s s') :
    s'.document.Sound := by
  induction hsession with
  | opened => exact h
  | perform _ hyields ih => exact sound_outcome ih (scopeOutcome_of_yields hyields)

theorem sound_transition (h : s.document.Sound) (htransition : Transition s s') :
    s'.document.Sound := by
  cases htransition with
  | same => exact h
  | set host key value => exact sound_set h host key value
  | unsetHost host => exact sound_unsetHost h host
  | opened hopen => exact sound_openScope h hopen
  | scope hopen houtcome => exact sound_outcome (sound_openScope h hopen) houtcome

theorem Reached.sound (h : s.Reached) : s.document.Sound := by
  induction h with
  | load hyields => exact sound_load hyields
  | wrap hparse => exact (sound_of_parse hparse).1
  | perform _ hyields ih => exact sound_transition ih (transition_of_yields hyields)
  | host _ hopen hsession ih => exact sound_hostSession (sound_openHost ih hopen) hsession
  | hostRefused _ hopen ih => exact sound_openHost ih hopen
  | scope _ hopen hsession ih => exact sound_scopeSession (sound_openScope ih hopen) hsession

/-! ## Following references -/

/-- Whoever follows the references of a store ends: every place that is asked for is in the table,
at most one path leads from the root to it, and every node has a tree. -/
structure Traversable (s : FileStore) : Prop where
  stored : ∀ id, ∀ child ∈ (s.document.kindAt id).children,
    ∃ node, s.document.node? child = some node
  key : ∀ id, ∀ key ∈ (s.document.kindAt id).keys, ∃ text, s.document.scalar? key = some text
  reached : ∀ path id, s.document.Leads path id → ∃ node, s.document.node? id = some node
  path : ∀ path path' id, s.document.Leads path id → s.document.Leads path' id → path = path'
  found : ∀ map key entry, s.document.findEntry? map key = some entry →
    (s.document.entries map)[entry.index]? = some (entry.key, entry.value) ∧
      (∃ node, s.document.node? entry.key = some node) ∧
      ∃ node, s.document.node? entry.value = some node
  host : ∀ host map s' s'', s.openHost host = (.ok map, s') → HostSession map s' s'' →
    ∃ node, s''.document.node? map = some node
  scope : ∀ scope map s' s'', s.openScope scope = .ok (s', map) → ScopeSession scope map s' s'' →
    ∃ node, s''.document.node? map = some node
  encoded : ∀ id node, s.document.node? id = some node → ∃ t, s.document.treeAt? id = some t ∧
    ∀ exclude, s.document.encode id exclude = t.encode exclude
  compared : ∀ s' : FileStore, s'.Reached → ∃ t t', s.document.tree? = some t ∧
    s'.document.tree? = some t' ∧ (s.document.same s'.document = true ↔ t = t')

theorem traversable_of_reached (h : s.Reached) : s.Traversable := by
  have hsound := h.sound
  obtain ⟨t, ht⟩ := h.holds
  constructor
  case stored => exact fun id child hmem ↦ exists_node (hsound.behind id child hmem).2
  case key =>
    intro id key hmem
    obtain ⟨text, style, hkind⟩ := hsound.scalar id key hmem
    obtain ⟨node, hnode⟩ := exists_node (hsound.behind id key (List.mem_append_left _ hmem)).2
    obtain ⟨kind, c⟩ := node
    obtain rfl : kind = .scalar text style := (kindAt_eq hnode).symm.trans hkind
    exact ⟨text, by rw [scalar?, hnode]⟩
  case reached => exact fun path id hpath ↦ exists_node (hsound.lt_size_of_leads hpath)
  case path => exact fun path path' id ↦ hsound.eq_of_leads
  case found =>
    intro map key entry hfound
    obtain ⟨hkey, hvalue⟩ := mem_children_of_entry (mem_entries_of_found hfound)
    exact ⟨(findEntry?_eq_some_iff.1 hfound).2,
      exists_node (hsound.behind map entry.key (List.mem_append_left _ hkey)).2,
      exists_node (hsound.behind map entry.value (List.mem_append_right _ hvalue)).2⟩
  case host =>
    intro host map s' s'' hopen hsession
    obtain ⟨u, places, hpart⟩ := part_openHost ht hopen
    obtain ⟨u', places', hpart'⟩ := part_hostSession hpart hsession
    exact hpart'.hangs.exists_node
  case scope =>
    intro scope map s' s'' hopen hsession
    obtain ⟨u, places, hpart⟩ := part_openScope ht hopen
    obtain ⟨u', places', hpart'⟩ := part_scopeSession hpart hsession
    exact hpart'.hangs.exists_node
  case encoded =>
    intro id node hnode
    obtain ⟨t, ht⟩ := hsound.exists_treeAt? (lt_size_of_node? hnode)
    exact ⟨t, ht, encode_of_treeAt? ht⟩
  case compared =>
    intro s' h'
    obtain ⟨t', ht'⟩ := h'.holds
    refine ⟨t, t', ht.tree?, ht'.tree?, ?_⟩
    rw [Document.same, ht.tree?, ht'.tree?, beq_iff_eq, Option.some.injEq]

theorem Reached.set (h : s.Reached) (host key value : String) :
    (s.set host key value).2.Reached := by
  have hyields : (s.perform (pure (.error .notFound)) (.set host key value)).Yields
      (Result.ofShape (fun _ ↦ .done) (s.set host key value).1, (s.set host key value).2) :=
    yields_pure.2 rfl
  exact h.perform hyields

theorem Reached.unsetHost (h : s.Reached) (host : String) : (s.unsetHost host).Reached := by
  have hyields : (s.perform (pure (.error .notFound)) (.unsetHost host)).Yields
      (.ok .done, s.unsetHost host) :=
    yields_pure.2 rfl
  exact h.perform hyields

/-- A file with one host that has a setting and one that has none. -/
def twoHosts : String :=
  "hosts:\n  a.example:\n    token: x\n  b.example:\n"

/-- One host was removed, the other one was given a setting in place of its empty value. -/
theorem traversable_of_reached_twoHosts :
    ∃ s : FileStore, s.Reached ∧
      s.mainText = "hosts:\n    b.example:\n        token: y\n" ∧ s.Traversable := by
  obtain ⟨d, hparse, htext⟩ : ∃ d, Document.parse twoHosts = .ok d ∧
      (((FileStore.mk d ⟨⟨"cfg"⟩, ⟨"repo"⟩⟩ {}).unsetHost "a.example").set "b.example" "token"
        "y").2.mainText = "hosts:\n    b.example:\n        token: y\n" :=
    ⟨_, by cbv, by cbv⟩
  have hwrapped := Reached.wrap hparse ⟨⟨"cfg"⟩, ⟨"repo"⟩⟩ {}
  have hreached := (hwrapped.unsetHost "a.example").set "b.example" "token" "y"
  exact ⟨_, hreached, htext, traversable_of_reached hreached⟩

end LayeredConfig.FileStore
