import LayeredConfig.Proofs.Store.Calls
import LayeredConfig.Proofs.Store.Snapshot

/-!
# What is removed is gone

A removal takes one entry out of a mapping, the first one under its key. A host that was removed is
not listed any more and has no settings of its own, and a name that was deleted from a scope is
found nowhere, if the mapping did not repeat the key. In a file written by hand it may: then the
next entry comes to light.
-/

namespace LayeredConfig

/-! ## Keys behind a removal -/

theorem mem_erase_self_iff {names : List String} {name : String} :
    name ∈ names.erase name ↔ 2 ≤ names.count name := by
  rw [← List.count_pos_iff, List.count_erase_self]
  omega

namespace Tree

variable {t u : Tree} {top name : String} {entries : List (Tree × Tree)}

theorem keyTexts_eraseP (name : String) (entries : List (Tree × Tree)) :
    keyTexts (entries.eraseP (hasKey name)) = (keyTexts entries).erase name := by
  induction entries with
  | nil => rfl
  | cons entry rest ih =>
    by_cases hentry : hasKey name entry = true
    · rw [List.eraseP_cons_of_pos hentry, keyTexts_cons_of_hasKey hentry, List.erase_cons_head]
    · rw [List.eraseP_cons_of_neg hentry, keyTexts_cons, keyTexts_cons, ih]
      cases hkey : entry.1.text? with
      | none => rfl
      | some key =>
        have hne : ¬ (key == name) = true := by
          rw [beq_iff_eq]
          rintro rfl
          exact hentry (hasKey_iff.2 hkey)
        exact (List.erase_cons_tail hne).symm

theorem keyTexts_remove? (hu : t.remove? name = some u) :
    keyTexts u.entries = (keyTexts t.entries).erase name := by
  obtain ⟨c, entries, rfl, -, rfl⟩ := remove?_eq_some_iff.1 hu
  exact keyTexts_eraseP name entries

/-- The keys of the mapping under a key, as often as they stand there. -/
def keysBelow (t : Tree) (top : String) : List String :=
  match t.lookup? top with
  | some v => keyTexts v.entries
  | none => []

theorem keysBelow_of_lookup? {v : Tree} (h : t.lookup? top = some v) :
    t.keysBelow top = keyTexts v.entries := by
  rw [keysBelow, h]

/-- A removal takes away one of the keys. -/
theorem keysBelow_dropBelow (t : Tree) (top name : String) :
    (t.dropBelow top name).keysBelow top = (t.keysBelow top).erase name := by
  rcases dropBelow_cases top name t with hnone | ⟨u, t', hu, ht'⟩
  · rw [dropBelow_eq_self hnone, keysBelow]
    cases hlookup : t.lookup? top with
    | none => rfl
    | some v =>
      rw [hlookup] at hnone
      have habsent : v.lookup? name = none := lookup?_of_remove?_eq_none hnone
      exact (List.erase_of_not_mem fun hmem ↦ mem_keyTexts_iff.1 hmem habsent).symm
  · obtain ⟨w, hw, hlookup⟩ := lookup?_update ht'
    obtain rfl := Except.ok.inj hw
    obtain ⟨v, hv, hu⟩ := Option.bind_eq_some_iff.1 hu
    rw [dropBelow_eq _ ht', keysBelow_of_lookup? hlookup, keysBelow_of_lookup? hv, keyTexts_remove? hu]
    rw [hv]
    exact hu

/-- Below a key that is not there nothing is found. -/
theorem valueAt?_of_not_mem_keysBelow (h : name ∉ t.keysBelow top) (path : List String) :
    valueAt? (top :: name :: path) t = none := by
  rw [valueAt?]
  cases hlookup : t.lookup? top with
  | none => rfl
  | some v =>
    rw [keysBelow_of_lookup? hlookup, mem_keyTexts_iff, not_not] at h
    have habsent : v.lookup? name = none := h
    change valueAt? (name :: path) v = none
    rw [valueAt?, habsent]
    rfl

end Tree

/-! ## The default host and the others -/

theorem mem_orderHosts {names : List String} {name : String} :
    name ∈ orderHosts names ↔ name = defaultHostname ∨ name ∈ names := by
  have hfold : ∀ ordered : List String, name ∈ names.foldl (fun ordered name ↦
      if ordered.contains name then ordered else ordered ++ [name]) ordered ↔
        name ∈ ordered ∨ name ∈ names := by
    induction names with
    | nil => simp
    | cons first rest ih =>
      intro ordered
      rw [List.foldl_cons, ih]
      split
      · rename_i hfirst
        rw [List.contains_iff_mem] at hfirst
        rw [List.mem_cons]
        refine ⟨Or.imp_right .inr, ?_⟩
        rintro (hold | rfl | hrest)
        · exact .inl hold
        · exact .inl hfirst
        · exact .inr hrest
      · rw [List.mem_append, List.mem_singleton, List.mem_cons, or_assoc]
  rw [orderHosts, hfold, List.mem_singleton]

namespace FileStore

open LayeredConfig.Tree
open LayeredConfig.Document

variable {s s' s₁ : FileStore} {t u : Tree} {host key top : String} {names : List String}
  {scope : Scope} {map : NodeId}

/-- The keys of the mapping under a key of the document, as often as they stand there. -/
def keysUnder (s : FileStore) (top : String) : List String :=
  match s.document.findEntry? s.document.root top with
  | some entry => s.document.keys entry.value
  | none => []

theorem keysUnder_eq (h : s.document.Holds t) (top : String) : s.keysUnder top = t.keysBelow top := by
  obtain ⟨places, hangs, hnodup⟩ := h
  rw [keysUnder]
  cases hfound : s.document.findEntry? s.document.root top with
  | none => rw [keysBelow, hangs.lookup?_eq_none hfound]
  | some entry =>
    obtain ⟨v, valuePlaces, hlookup, hinside⟩ := hangs.inside hnodup hfound
    rw [keysBelow_of_lookup? hlookup]
    exact hinside.hangs.keys_eq

/-! ## Removed hosts -/

theorem keys_of_not_isMapping {d : Document} {id : NodeId} (h : d.isMapping id = false) :
    d.keys id = [] := by
  have hentries : d.entries id = [] := by
    unfold Document.entries
    split
    · rename_i entries c hnode
      rw [Document.isMapping, hnode] at h
      cases h
    · rfl
  rw [keys, hentries]
  rfl

theorem hosts_eq_ok (h : s.hosts = .ok names) : names = orderHosts (s.keysUnder "hosts") := by
  rw [hosts] at h
  rw [keysUnder]
  cases hfound : s.document.findEntry? s.document.root "hosts" with
  | none =>
    rw [hfound] at h
    cases h
  | some entry =>
    rw [hfound] at h
    dsimp only at h ⊢
    split at h
    · exact (Except.ok.inj h).symm
    · rename_i hmap
      split at h
      · obtain rfl := Except.ok.inj h
        rw [keys_of_not_isMapping (by simpa using hmap)]
      · cases h

/-- A host without settings of its own has those that hold for all hosts. -/
theorem getWithSource_of_hostValue?_none (h : ∀ key, s.hostValue? host key = none) (key : String) :
    s.getWithSource host key = s.getWithSource "" key := by
  have hnone : (if host.isEmpty = true then none else nonEmpty? (none : Option String)) = none := by
    split <;> rfl
  rw [getWithSource, getWithSource, h, hnone]
  rfl

theorem keysUnder_unsetHost (h : s.document.Holds t) (hhost : host ≠ "") :
    (s.unsetHost host).keysUnder "hosts" = (s.keysUnder "hosts").erase host := by
  have hholds := holds_unsetHost h fun hempty ↦ hhost (String.isEmpty_iff.1 hempty)
  rw [keysUnder_eq hholds, keysUnder_eq h, keysBelow_dropBelow]

/-- A host is listed behind its removal if the document names it a second time. -/
theorem mem_hosts_unsetHost_iff (h : s.document.Holds t) (hhost : host ≠ "")
    (hdefault : host ≠ defaultHostname) (hnames : (s.unsetHost host).hosts = .ok names) :
    host ∈ names ↔ 2 ≤ (s.keysUnder "hosts").count host := by
  rw [hosts_eq_ok hnames, mem_orderHosts, keysUnder_unsetHost h hhost, mem_erase_self_iff]
  exact or_iff_right hdefault

theorem hostValue?_unsetHost (h : s.document.Holds t) (hhost : host ≠ "")
    (hcount : (s.keysUnder "hosts").count host ≤ 1) (key : String) :
    (s.unsetHost host).hostValue? host key = none := by
  have hholds := holds_unsetHost h fun hempty ↦ hhost (String.isEmpty_iff.1 hempty)
  have hnot : host ∉ (s.unsetHost host).keysUnder "hosts" := by
    rw [keysUnder_unsetHost h hhost, mem_erase_self_iff]
    omega
  rw [keysUnder_eq hholds] at hnot
  rw [hostValue?_eq hholds]
  exact valueAt?_of_not_mem_keysBelow hnot [key]

/-! ## Deleted names -/

/-- A scope that has a mapping is opened as it is. -/
theorem openScope_of_mapping (h : s.document.Holds t) (hlookup : t.lookup? scope.key = some u)
    (hmap : u.isMapping = true) :
    ∃ map places, s.openScope scope = .ok (s, map) ∧ Hangs s.document u map places ∧
      places.Nodup := by
  obtain ⟨places, hangs, hnodup⟩ := h
  cases hfound : s.document.findEntry? s.document.root scope.key with
  | none =>
    rw [hangs.lookup?_eq_none hfound] at hlookup
    cases hlookup
  | some entry =>
    obtain ⟨v, valuePlaces, hv, hinside⟩ := hangs.inside hnodup hfound
    obtain rfl := Option.some.inj (hlookup.symm.trans hv)
    refine ⟨entry.value, valuePlaces, ?_, hinside.hangs, hinside.nodup⟩
    have hroot := isMapping_of_found hfound
    cases hinside.hangs with
    | mapping node =>
      rw [openScope, ensureMapping, hroot, hfound]
      dsimp only
      rw [node]
      rfl
    | scalar => cases hmap
    | sequence => cases hmap

/-- What a delete that succeeded has left: one key less in the mapping of the scope. -/
theorem deleted_of_yields {name : String} {findShell : ShellFinder} {answer : Answer}
    (h : s.document.Holds t)
    (hyields : (s.perform findShell (.scope scope (.delete name))).Yields (.ok answer, s')) :
    ∃ t' u, s'.document.Holds t' ∧ t'.lookup? scope.key = some u ∧ u.isMapping = true ∧
      keyTexts u.entries = (s.keysUnder scope.key).erase (scope.normalize name) := by
  obtain ⟨s₁, map, d, entry, hopen, hremove, rfl⟩ := scopeDelete_of_yields hyields
  obtain ⟨u, hopened, -, -⟩ := opened_of_openScope h hopen
  obtain ⟨u', t', hu', ht', hholds⟩ := hopened.removeEntry hremove
  obtain ⟨w, hw, hlookup⟩ := lookup?_update ht'
  obtain rfl := Except.ok.inj hw
  refine ⟨t', u', hholds, hlookup, isMapping_remove? hu', ?_⟩
  rw [keyTexts_remove? hu', keysUnder_eq h]
  obtain ⟨v, hv, hempty | hold⟩ := inside_eq_ok_cases (hopened.opens .ok)
  · obtain rfl := Except.ok.inj hv
    cases v with
    | mapping c entries =>
      obtain rfl : entries = [] := hempty
      cases hu'
    | scalar => cases hu'
    | sequence => cases hu'
  · obtain rfl := Except.ok.inj hv
    rw [keysBelow_of_lookup? hold]

theorem findEntry?_of_not_mem_keys {d : Document} (h : key ∉ d.keys map) :
    d.findEntry? map key = none := by
  rw [findEntry?_eq_none_iff]
  exact fun entry hmem hkey ↦ h (List.mem_filterMap.2 ⟨entry, hmem, hkey⟩)

/-- A name that the mapping of a scope does not have is found nowhere. -/
theorem absent_of_not_mem {name : String} (h : s.document.Holds t)
    (hlookup : t.lookup? scope.key = some u) (hmap : u.isMapping = true)
    (hnot : scope.normalize name ∉ keyTexts u.entries) :
    ∃ map, s.openScope scope = .ok (s, map) ∧ s.scopeGet? scope map name = none ∧
      (s.scopeAll map).get? (scope.normalize name) = none := by
  obtain ⟨map, places, hopen, hangs, -⟩ := openScope_of_mapping h hlookup hmap
  rw [← hangs.keys_eq] at hnot
  have hnone := findEntry?_of_not_mem_keys hnot
  have hget : s.document.get? map (scope.normalize name) = none := by
    rw [Document.get?, hnone]
    rfl
  have hshown : ¬ s.document.HidesText map (scope.normalize name) := by
    rintro ⟨entry, hentry, -⟩
    rw [hnone] at hentry
    cases hentry
  exact ⟨map, hopen, hget, ((lookup_snapshot_eq_get?_iff _ _ _).2 hshown).trans hget⟩

/-- A host that was removed and a name that was deleted are gone, unless the document repeats their
keys: a host is listed behind its removal exactly when the document names it a second time. A host
that it names once has only the settings that hold for all hosts, and a name that it has once is
found neither by itself nor in the table, and as an alias it is passed on as it is. -/
theorem gone_of_reached (h : s.Reached) :
    (∀ host names, host ≠ "" → host ≠ defaultHostname → (s.unsetHost host).hosts = .ok names →
      (host ∈ names ↔ 2 ≤ (s.keysUnder "hosts").count host)) ∧
    (∀ host, host ≠ "" → (s.keysUnder "hosts").count host ≤ 1 → ∀ key,
      (s.unsetHost host).getWithSource host key = (s.unsetHost host).getWithSource "" key) ∧
    ∀ scope name findShell s',
      (s.perform findShell (.scope scope (.delete name))).Yields (.ok .done, s') →
      (s.keysUnder scope.key).count (scope.normalize name) ≤ 1 → ∀ findShell,
        s'.perform findShell (.scope scope (.get name)) = pure (.ok (.found none), s') ∧
        (∃ table, s'.perform findShell (.scope scope .all) = pure (.ok (.table table), s') ∧
          scope.normalize name ∉ table.names) ∧
        (scope = .aliases → ∀ program arguments,
          s'.perform findShell (.expand (program :: name :: arguments)) =
            pure (.ok (.expansion ⟨name :: arguments, false⟩), s')) := by
  obtain ⟨t, ht⟩ := h.holds
  refine ⟨fun host names hhost hdefault hnames ↦ mem_hosts_unsetHost_iff ht hhost hdefault hnames,
    fun host hhost hcount key ↦ ?_, fun scope name _ s' hyields hcount findShell ↦ ?_⟩
  · exact getWithSource_of_hostValue?_none (hostValue?_unsetHost ht hhost hcount) key
  · obtain ⟨t', u, ht', hlookup, hmap, hkeys⟩ := deleted_of_yields ht hyields
    have hnot : scope.normalize name ∉ keyTexts u.entries := by
      rw [hkeys, mem_erase_self_iff]
      omega
    obtain ⟨map, hopen, hget, htable⟩ := absent_of_not_mem ht' hlookup hmap hnot
    refine ⟨?_, ⟨s'.scopeAll map, ?_, lookup_eq_none_iff_not_mem.1 htable⟩, ?_⟩
    · rw [perform, hopen]
      dsimp only
      rw [performScope, hget]
    · rw [perform, hopen]
      rfl
    · rintro rfl program arguments
      have hsame : (s'.scopeAll map).get? name = s'.scopeGet? .aliases map name :=
        htable.trans hget.symm
      rw [perform, expand_of_get? hopen hsame, hget]
      rfl

/-- Behind their removals the host and the alias of a file are gone, as it names each of them once. -/
theorem gone_of_reached_once :
    ∃ (s s' : FileStore) (findShell : ShellFinder), s.Reached ∧
      parse "hosts:\n  h:\n    token: x\naliases:\n  co: a\n" = .ok s.document ∧
      (s.unsetHost "h").hosts = .ok [defaultHostname] ∧
      (s.unsetHost "h").getWithSource "h" "token" = (s.unsetHost "h").getWithSource "" "token" ∧
      (s.perform findShell (.scope .aliases (.delete "co"))).Yields (.ok .done, s') ∧
      s'.perform findShell (.scope .aliases (.get "co")) = pure (.ok (.found none), s') := by
  obtain ⟨s, s₁, map, d, entry, hparse, hopen, hremove, hhosts, hhost, halias⟩ :
      ∃ (s s₁ : FileStore) (map : NodeId) (d : Document) (entry : Entry),
        parse "hosts:\n  h:\n    token: x\naliases:\n  co: a\n" = .ok s.document ∧
        s.openScope .aliases = .ok (s₁, map) ∧
        s₁.document.removeEntry map "co" = some (d, entry) ∧
        (s.unsetHost "h").hosts = .ok [defaultHostname] ∧
        (s.keysUnder "hosts").count "h" ≤ 1 ∧ (s.keysUnder "aliases").count "co" ≤ 1 :=
    ⟨⟨_, ⟨⟨"cfg"⟩, ⟨"repo"⟩⟩, {}⟩, _, _, _, _, by cbv, rfl, rfl, by decide +kernel, by decide +kernel,
      by decide +kernel⟩
  have hreached : s.Reached := .wrap hparse s.locations s.environment
  let findShell : ShellFinder := pure (.error .notFound)
  have hdeleted : (s.perform findShell (.scope .aliases (.delete "co"))).Yields
      (.ok .done, { s₁ with document := d }) := yields_scopeDelete hopen hremove
  obtain ⟨-, hsettings, hgone⟩ := gone_of_reached hreached
  exact ⟨s, _, findShell, hreached, hparse, hhosts, hsettings "h" (by decide) hhost "token", hdeleted,
    (hgone .aliases "co" findShell _ hdeleted halias findShell).1⟩

/-- A host that the file names twice is still listed behind its removal. -/
theorem repeated_host_stays :
    ¬ ∀ (s : FileStore) (host : String) (names : List String), s.Reached → host ≠ "" →
      host ≠ defaultHostname → (s.unsetHost host).hosts = .ok names → host ∉ names := by
  intro h
  obtain ⟨s, hparse, hhosts⟩ : ∃ s : FileStore,
      parse "hosts:\n  h:\n    token: x\n  h:\n    token: y\n" = .ok s.document ∧
      (s.unsetHost "h").hosts = .ok [defaultHostname, "h"] :=
    ⟨⟨_, ⟨⟨"cfg"⟩, ⟨"repo"⟩⟩, {}⟩, by cbv, by decide +kernel⟩
  exact h s "h" _ (.wrap hparse s.locations s.environment) (by decide) (by decide) hhosts
    (by decide)

end FileStore

end LayeredConfig
