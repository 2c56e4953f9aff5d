import Mathlib
import LayeredConfig.Proofs.Store.Reached

/-!
# Settings keep apart

Storing a setting of one host, or a global one, either leaves the store as it was or changes
nothing that is looked up for other hosts or other keys. A value that was set for a host is never
found for another host or for none.
-/

namespace LayeredConfig.FileStore

open LayeredConfig.Tree

variable {s s' : FileStore} {t t' : Tree} {host host' key key' value : String}

/-! ## Stored settings in a tree -/

theorem storeSetting_storeSetting (h : storeSetting host key value t = .ok t') :
    storeSetting host key value t' = .ok t' :=
  storeAt_storeAt h

theorem valueAt?_storeSetting (h : storeSetting host key value t = .ok t') :
    valueAt? ((settingPath host key).1 :: (settingPath host key).2) t' = some value :=
  valueAt?_storeAt h

/-- A setting that is looked up for another host or under another key. -/
def Apart (host key host' key' : String) : Prop :=
  key' ≠ key ∨ (host ≠ "" ∧ host' ≠ host)

theorem nonEmpty?_hostValue_storeSetting (h : storeSetting host key value t = .ok t')
    (hapart : Apart host key host' key') :
    nonEmpty? (valueAt? ["hosts", host', key'] t') = nonEmpty? (valueAt? ["hosts", host', key'] t) := by
  apply nonEmpty?_valueAt?_storeAt h
  unfold settingPath
  split
  · simp
  · intro heq
    simp only [List.cons.injEq, and_true, true_and] at heq
    rcases hapart with hkey | ⟨-, hhost⟩
    · exact hkey heq.2
    · exact hhost heq.1

theorem nonEmpty?_localValue_storeSetting (h : storeSetting host key value t = .ok t') (key' : String) :
    nonEmpty? (valueAt? [Scope.localSettings.key, key'] t') =
      nonEmpty? (valueAt? [Scope.localSettings.key, key'] t) := by
  apply nonEmpty?_valueAt?_storeAt h
  unfold settingPath
  split
  · simp
  · simp

theorem nonEmpty?_globalValue_storeSetting (h : storeSetting host key value t = .ok t')
    (hapart : Apart host key host' key') :
    nonEmpty? (valueAt? [key'] t') = nonEmpty? (valueAt? [key'] t) := by
  apply nonEmpty?_valueAt?_storeAt h
  unfold settingPath
  split
  · rename_i hhost
    rcases hapart with hkey | ⟨hhost', -⟩
    · simp [hkey]
    · exact absurd (String.isEmpty_iff.1 hhost) hhost'
  · simp

/-! ## Isolation -/

theorem getWithSource_of_storeSetting (h : s.document.Holds t) (h' : s'.document.Holds t')
    (hlocations : s'.locations = s.locations)
    (hstore : storeSetting host (Key.canonical key) value t = .ok t')
    (hapart : Apart host (Key.canonical key) host' (Key.canonical key')) :
    s'.getWithSource host' key' = s.getWithSource host' key' := by
  apply getWithSource_congr hlocations
  · rw [hostValue?_eq h, hostValue?_eq h']
    exact nonEmpty?_hostValue_storeSetting hstore hapart
  · rw [localValue?_eq h, localValue?_eq h']
    exact nonEmpty?_localValue_storeSetting hstore _
  · rw [globalValue?_eq h, globalValue?_eq h']
    exact nonEmpty?_globalValue_storeSetting hstore hapart

/-- Storing a setting that fails changes nothing. When it succeeds, no lookup for another host or
under another key changes, and storing it again succeeds and leaves an equal document. -/
theorem set_isolated (h : s.Reached) (host key value : String) :
    (∀ e s', s.set host key value = (.error e, s') → s' = s) ∧
      ∀ s', s.set host key value = (.ok (), s') →
        (∀ host' key', Key.canonical key' ≠ Key.canonical key ∨ (host ≠ "" ∧ host' ≠ host) →
          s'.getWithSource host' key' = s.getWithSource host' key') ∧
        ∃ s'', s'.set host key value = (.ok (), s'') ∧ s''.document.same s'.document = true := by
  refine ⟨fun e s' hset ↦ eq_of_set_error hset, fun s' hset ↦ ?_⟩
  obtain ⟨t, ht⟩ := h.holds
  obtain ⟨t', hstore, ht', hlocations, -⟩ := holds_set ht hset
  refine ⟨fun host' key' hapart ↦ getWithSource_of_storeSetting ht ht' hlocations hstore hapart, ?_⟩
  obtain ⟨s'', hset', ht''⟩ := set_of_storeSetting ht' (storeSetting_storeSetting hstore)
  refine ⟨s'', hset', ?_⟩
  rw [Document.same, ht'.tree?, ht''.tree?, beq_self_eq_true]

/-- A file in which one host stands twice and another one has no settings. -/
def repeatedHosts : String :=
  "hosts:\n  a.example:\n    token: x\n  a.example: 1\n  b.example:\n"

theorem set_isolated_repeatedHosts :
    ∃ s : FileStore, s.Reached ∧ (s.set "b.example" "gitlab_token" "y").1 = .ok () ∧
      (∀ e s', s.set "b.example" "gitlab_token" "y" = (.error e, s') → s' = s) ∧
      ∀ s', s.set "b.example" "gitlab_token" "y" = (.ok (), s') →
        (∀ host' key', Key.canonical key' ≠ Key.canonical "gitlab_token" ∨
            ("b.example" ≠ "" ∧ host' ≠ "b.example") →
          s'.getWithSource host' key' = s.getWithSource host' key') ∧
        ∃ s'', s'.set "b.example" "gitlab_token" "y" = (.ok (), s'') ∧
          s''.document.same s'.document = true := by
  obtain ⟨d, hparse, hset⟩ : ∃ d, Document.parse repeatedHosts = .ok d ∧
      (FileStore.set ⟨d, ⟨⟨"cfg"⟩, ⟨"repo"⟩⟩, {}⟩ "b.example" "gitlab_token" "y").1 = .ok () :=
    ⟨_, by cbv, by cbv⟩
  have hreached := Reached.wrap hparse ⟨⟨"cfg"⟩, ⟨"repo"⟩⟩ {}
  exact ⟨_, hreached, hset, set_isolated hreached "b.example" "gitlab_token" "y"⟩

end LayeredConfig.FileStore
