import LayeredConfig.Proofs.Document.HiddenKeys
import LayeredConfig.Proofs.Document.Simulation
import LayeredConfig.Proofs.Settings.Key
import LayeredConfig.Store.FileStore

/-!
# The layers of a store in its tree

A setting of a host stands below the key of the hosts, a local setting below the key of the local
scope, and a global setting at the top. Lookups and edits of a store are lookups and edits of its
tree at these paths.
-/

namespace LayeredConfig.FileStore

open LayeredConfig.Tree
open LayeredConfig.Document

variable {s s' : FileStore} {t : Tree} {host key value : String} {e : ShapeError}

/-! ## Lookup -/

theorem hostValue?_eq (h : s.document.Holds t) (host key : String) :
    s.hostValue? host key = valueAt? ["hosts", host, key] t := by
  obtain ⟨places, hangs, hnodup⟩ := h
  have hbinds : s.hostValue? host key =
      s.document.findEntry? s.document.root "hosts" >>= fun hosts ↦
        s.document.findEntry? hosts.value host >>= fun entry ↦ s.document.get? entry.value key := by
    simp only [hostValue?, host?, Option.bind_eq_bind, Option.bind_assoc]
    rfl
  rw [hbinds]
  exact hangs.bind_found hnodup fun hv hn ↦ hv.bind_found hn fun hw hn' ↦ hw.get?_eq hn' key

theorem localValue?_eq (h : s.document.Holds t) (key : String) :
    s.localValue? key = valueAt? [Scope.localSettings.key, key] t := by
  obtain ⟨places, hangs, hnodup⟩ := h
  exact hangs.bind_found hnodup fun hv hn ↦ hv.get?_eq hn key

theorem globalValue?_eq (h : s.document.Holds t) (key : String) :
    s.globalValue? key = valueAt? [key] t := by
  obtain ⟨places, hangs, hnodup⟩ := h
  exact hangs.get?_eq hnodup key

/-- Without a host there is no value of a host. -/
theorem nonEmpty?_of_host (host : String) (value : Option String) :
    (if host.isEmpty then none else nonEmpty? value) =
      nonEmpty? (if host = "" then none else value) := by
  simp only [String.isEmpty_iff]
  split
  · rfl
  · rfl

/-- Stores of the same files answer the same when no layer tells them apart. -/
theorem getWithSource_congr (hlocations : s'.locations = s.locations)
    (hhost : nonEmpty? (s'.hostValue? host (Key.canonical key)) =
      nonEmpty? (s.hostValue? host (Key.canonical key)))
    (hlocal : nonEmpty? (s'.localValue? (Key.canonical key)) =
      nonEmpty? (s.localValue? (Key.canonical key)))
    (hglobal : nonEmpty? (s'.globalValue? (Key.canonical key)) =
      nonEmpty? (s.globalValue? (Key.canonical key))) :
    s'.getWithSource host key = s.getWithSource host key := by
  rw [getWithSource, getWithSource, hlocations, hhost, hlocal, hglobal]

/-! ## Storing a setting -/

/-- Where a setting stands: below its host, or at the top when no host is named. -/
def settingPath (host key : String) : String × List String :=
  if host.isEmpty then (key, []) else ("hosts", [host, key])

/-- Stores a setting in a tree. -/
def storeSetting (host key value : String) (t : Tree) : Except ShapeError Tree :=
  storeAt value (settingPath host key).1 (settingPath host key).2 t

/-! ## Edits of the document -/

theorem setAt_eq_ok {map : NodeId} (h : s.setAt map key value = (.ok (), s')) :
    ∃ d entry, s.document.setText map key value = .ok (d, entry) ∧ s' = { s with document := d } := by
  unfold setAt at h
  split at h
  · cases h
  · rename_i d entry hset
    obtain ⟨-, rfl⟩ := Prod.mk.inj h
    exact ⟨d, entry, hset, rfl⟩

theorem setAt_eq_error {map : NodeId} (h : s.setAt map key value = (.error e, s')) :
    s.document.setText map key value = .error e ∧ s' = s := by
  unfold setAt at h
  split at h
  · rename_i hset
    obtain ⟨he, rfl⟩ := Prod.mk.inj h
    obtain rfl := Except.error.inj he
    exact ⟨hset, rfl⟩
  · cases h

theorem openHost_eq_ok {map : NodeId} (h : s.openHost host = (.ok map, s')) :
    ∃ d hosts d', s.document.ensureMapping s.document.root "hosts" = .ok (d, hosts) ∧
      d.ensureMapping hosts host = .ok (d', map) ∧ s' = { s with document := d' } := by
  unfold openHost at h
  split at h
  · cases h
  · rename_i d hosts hopen
    split at h
    · cases h
    · rename_i d' map' hopen'
      obtain ⟨hmap, rfl⟩ := Prod.mk.inj h
      obtain rfl := Except.ok.inj hmap
      exact ⟨d, hosts, d', hopen, hopen', rfl⟩

theorem openHost_eq_error (h : s.openHost host = (.error e, s')) :
    (s.document.ensureMapping s.document.root "hosts" = .error e ∧ s' = s) ∨
      ∃ d hosts, s.document.ensureMapping s.document.root "hosts" = .ok (d, hosts) ∧
        d.ensureMapping hosts host = .error e ∧ s' = { s with document := d } := by
  unfold openHost at h
  split at h
  · rename_i hopen
    obtain ⟨he, rfl⟩ := Prod.mk.inj h
    obtain rfl := Except.error.inj he
    exact .inl ⟨hopen, rfl⟩
  · rename_i d hosts hopen
    split at h
    · rename_i hopen'
      obtain ⟨he, rfl⟩ := Prod.mk.inj h
      obtain rfl := Except.error.inj he
      exact .inr ⟨d, hosts, hopen, hopen', rfl⟩
    · cases h

/-- A host that was opened was there before, or its mapping is empty. -/
theorem eq_or_empty_of_openHost {map : NodeId} (h : s.openHost host = (.ok map, s')) :
    s' = s ∨ ∃ c, s'.document.node? map = some ⟨.mapping [], c⟩ := by
  obtain ⟨d, hosts, d', hhosts, hmap, rfl⟩ := openHost_eq_ok h
  rcases eq_or_empty_of_ensureMapping hmap with ⟨rfl, entry, hfound⟩ | hempty
  · rcases eq_or_empty_of_ensureMapping hhosts with ⟨rfl, -⟩ | ⟨c, hempty⟩
    · exact .inl rfl
    · rw [findEntry?_of_empty hempty] at hfound
      cases hfound
  · exact .inr hempty

theorem eq_of_openHost_error (h : s.openHost host = (.error e, s')) : s' = s := by
  rcases openHost_eq_error h with ⟨-, rfl⟩ | ⟨d, hosts, hhosts, hmap, rfl⟩
  · rfl
  · rcases eq_or_empty_of_ensureMapping hhosts with ⟨rfl, -⟩ | ⟨c, hempty⟩
    · rfl
    · exact absurd hmap (ensureMapping_of_empty hempty host e)

/-- A setting that cannot be stored leaves the store as it was, whatever was made on the way. -/
theorem eq_of_set_error (h : s.set host key value = (.error e, s')) : s' = s := by
  unfold set at h
  split at h
  · exact (setAt_eq_error h).2
  · split at h
    · rename_i e' s₁ hopen
      obtain ⟨-, rfl⟩ := Prod.mk.inj h
      exact eq_of_openHost_error hopen
    · rename_i map s₁ hopen
      obtain ⟨hset, rfl⟩ := setAt_eq_error h
      rcases eq_or_empty_of_openHost hopen with rfl | ⟨c, hempty⟩
      · rfl
      · exact absurd hset (setText_of_empty hempty _ _ e)

/-! ## Edits of the tree -/

theorem settingPath_of_isEmpty (h : host.isEmpty = true) (key : String) :
    settingPath host key = (key, []) := by
  rw [settingPath, if_pos h]

theorem settingPath_of_not_isEmpty (h : ¬ host.isEmpty = true) (key : String) :
    settingPath host key = ("hosts", [host, key]) := by
  rw [settingPath, if_neg h]

/-- A setting that was stored was stored in the tree. -/
theorem holds_set (h : s.document.Holds t) (hset : s.set host key value = (.ok (), s')) :
    ∃ t', storeSetting host (Key.canonical key) value t = .ok t' ∧ s'.document.Holds t' ∧
      s'.locations = s.locations ∧ s'.environment = s.environment := by
  obtain ⟨places, hangs, hnodup⟩ := h
  unfold set at hset
  split at hset
  · rename_i hhost
    obtain ⟨d, entry, hset', rfl⟩ := setAt_eq_ok hset
    obtain ⟨t', places', ht', hbecomes⟩ := hangs.setText hnodup hset'
    refine ⟨t', ?_, hbecomes.holds, rfl, rfl⟩
    rw [storeSetting, settingPath_of_isEmpty hhost]
    exact ht'
  · rename_i hhost
    split at hset
    · cases hset
    · rename_i map s₂ hopen
      obtain ⟨d₁, hosts, d₂, hhosts, hmap, rfl⟩ := openHost_eq_ok hopen
      obtain ⟨d₃, entry, hset', rfl⟩ := setAt_eq_ok hset
      rw [Key.canonical_canonical] at hset'
      obtain ⟨u, uPlaces, -, hu, hinside⟩ := hangs.ensureMapping hnodup hhosts
      obtain ⟨w, wPlaces, -, hw, hinside'⟩ := hinside.hangs.ensureMapping hinside.nodup hmap
      obtain ⟨w', wPlaces', hw', hbecomes⟩ := hinside'.hangs.setText hinside'.nodup hset'
      obtain ⟨u', uPlaces', hu', hbecomes'⟩ := hinside'.lift hbecomes
      obtain ⟨t', places', ht', hbecomes''⟩ := hinside.lift hbecomes'
      refine ⟨t', ?_, hbecomes''.holds, rfl, rfl⟩
      rw [storeSetting, settingPath_of_not_isEmpty hhost]
      exact storeAt_of_inside hu (storeAt_of_inside hw hw' hu') ht'

/-- A setting that cannot be stored cannot be stored in the tree. -/
theorem storeSetting_of_set_error (h : s.document.Holds t)
    (hset : s.set host key value = (.error e, s')) :
    storeSetting host (Key.canonical key) value t = .error e := by
  obtain ⟨places, hangs, hnodup⟩ := h
  unfold set at hset
  split at hset
  · rename_i hhost
    rw [storeSetting, settingPath_of_isEmpty hhost]
    exact hangs.update_of_setText_error hnodup (setAt_eq_error hset).1
  · rename_i hhost
    rw [storeSetting, settingPath_of_not_isEmpty hhost]
    split at hset
    · rename_i e' s₂ hopen
      obtain ⟨he, rfl⟩ := Prod.mk.inj hset
      obtain rfl := Except.error.inj he
      rcases openHost_eq_error hopen with ⟨hhosts, rfl⟩ | ⟨d₁, hosts, hhosts, hmap, rfl⟩
      · exact hangs.update_of_ensureMapping_error hnodup hhosts _
      · obtain ⟨u, uPlaces, -, hu, hinside⟩ := hangs.ensureMapping hnodup hhosts
        apply storeAt_error_of_inside _ hu
        · exact hinside.hangs.update_of_ensureMapping_error hinside.nodup hmap _
        · rw [← hangs.isMapping_eq]
          exact (ensureMapping_cases hhosts).1
    · rename_i map s₂ hopen
      obtain ⟨d₁, hosts, d₂, hhosts, hmap, rfl⟩ := openHost_eq_ok hopen
      obtain ⟨u, uPlaces, humap, hu, hinside⟩ := hangs.ensureMapping hnodup hhosts
      obtain ⟨w, wPlaces, -, hw, hinside'⟩ := hinside.hangs.ensureMapping hinside.nodup hmap
      apply storeAt_error_of_inside _ hu
      · apply storeAt_error_of_inside humap hw
        have hset' := (setAt_eq_error hset).1
        rw [Key.canonical_canonical] at hset'
        exact hinside'.hangs.update_of_setText_error hinside'.nodup hset'
      · rw [← hangs.isMapping_eq]
        exact (ensureMapping_cases hhosts).1

/-- What the tree takes, the store takes. -/
theorem set_of_storeSetting {t' : Tree} (h : s.document.Holds t)
    (hstore : storeSetting host (Key.canonical key) value t = .ok t') :
    ∃ s', s.set host key value = (.ok (), s') ∧ s'.document.Holds t' := by
  cases hset : s.set host key value with
  | mk outcome s' =>
    cases outcome with
    | error e =>
      have herror := storeSetting_of_set_error h hset
      rw [hstore] at herror
      cases herror
    | ok =>
      obtain ⟨t'', hstore', ht'', -⟩ := holds_set h hset
      rw [hstore] at hstore'
      obtain rfl := Except.ok.inj hstore'
      exact ⟨s', rfl, ht''⟩

/-- A host that was taken away was taken away from the tree. -/
theorem holds_unsetHost (h : s.document.Holds t) (hhost : ¬ host.isEmpty = true) :
    (s.unsetHost host).document.Holds (t.dropBelow "hosts" host) := by
  obtain ⟨places, hangs, hnodup⟩ := h
  rw [unsetHost, if_neg hhost]
  split
  · rename_i hnone
    rw [dropBelow_eq_self]
    · exact ⟨places, hangs, hnodup⟩
    · rw [hangs.lookup?_eq_none hnone]
      rfl
  · rename_i hosts hfound
    obtain ⟨u, uPlaces, hlookup, hinside⟩ := hangs.inside hnodup hfound
    split
    · rename_i hnone
      rw [dropBelow_eq_self]
      · exact ⟨places, hangs, hnodup⟩
      · rw [hlookup]
        exact hinside.hangs.remove?_eq_none hnone
    · rename_i d entry hremove
      obtain ⟨u', uPlaces', hu', hbecomes⟩ := hinside.hangs.removeEntry hinside.nodup hremove
      obtain ⟨t', places', ht', hbecomes'⟩ := hinside.lift hbecomes
      rw [dropBelow_eq _ ht']
      · exact hbecomes'.holds
      · rw [hlookup]
        exact hu'

theorem environment_unsetHost (s : FileStore) (host : String) :
    (s.unsetHost host).environment = s.environment := by
  unfold unsetHost
  split
  · rfl
  · split
    · rfl
    · split
      · rfl
      · rfl

/-! ## Scopes -/

theorem openScope_eq_ok {scope : Scope} {map : NodeId}
    (hopen : s.openScope scope = .ok (s', map)) :
    ∃ d, s.document.ensureMapping s.document.root scope.key = .ok (d, map) ∧
      s' = { s with document := d } := by
  obtain ⟨⟨d, map'⟩, hensure, hopen⟩ := bind_eq_ok_iff.1 hopen
  obtain ⟨rfl, rfl⟩ := Prod.mk.inj (Except.ok.inj hopen)
  exact ⟨d, hensure, rfl⟩

theorem openScope_eq_error {scope : Scope} (hopen : s.openScope scope = .error e) :
    s.document.ensureMapping s.document.root scope.key = .error e := by
  unfold openScope at hopen
  cases hensure : s.document.ensureMapping s.document.root scope.key with
  | error e' =>
    rw [hensure] at hopen
    obtain rfl := Except.error.inj hopen
    rfl
  | ok result =>
    rw [hensure] at hopen
    cases hopen

end LayeredConfig.FileStore
