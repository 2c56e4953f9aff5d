import LayeredConfig.Proofs.Document.Tables
import LayeredConfig.Proofs.Store.Calls
import LayeredConfig.Store.MemoryStore

/-!
# The tree of a store in files as tables in memory

The global settings, the hosts and the scopes of a tree stand for the tables of a store in memory.
Each change of the tree is the change of one of the tables.
-/

namespace LayeredConfig

open LayeredConfig.Tree

namespace MemoryStore

@[simp] theorem scopeTable_setScopeTable (m : MemoryStore) (scope : Scope) (table : Table) :
    (m.setScopeTable scope table).scopeTable scope = table := by
  cases scope <;> rfl

theorem scopeTable_setScopeTable_of_ne (m : MemoryStore) {scope other : Scope} (hne : other ≠ scope)
    (table : Table) : (m.setScopeTable scope table).scopeTable other = m.scopeTable other := by
  cases scope <;> cases other <;> first | rfl | exact absurd rfl hne

@[simp] theorem setScopeTable_scopeTable (m : MemoryStore) (scope : Scope) :
    m.setScopeTable scope (m.scopeTable scope) = m := by
  cases scope <;> rfl

@[simp] theorem globals_setScopeTable (m : MemoryStore) (scope : Scope) (table : Table) :
    (m.setScopeTable scope table).globals = m.globals := by
  cases scope <;> rfl

@[simp] theorem hostSettings_setScopeTable (m : MemoryStore) (scope : Scope) (table : Table) :
    (m.setScopeTable scope table).hostSettings = m.hostSettings := by
  cases scope <;> rfl

@[simp] theorem environment_setScopeTable (m : MemoryStore) (scope : Scope) (table : Table) :
    (m.setScopeTable scope table).environment = m.environment := by
  cases scope <;> rfl

/-- Where no host is repeated, storing a value of a host changes the table of one host. -/
theorem setHost_eq {hosts : List (String × Table)} (h : (hosts.map Prod.fst).Nodup)
    (host key value : String) :
    setHost hosts host key value =
      Table.upsert host (fun o ↦ (o.getD {}).insert key value) hosts := by
  rw [setHost]
  split
  · rename_i hmem
    rw [Table.upsert_of_mem (Table.any_name_iff.1 hmem) h]
    refine List.map_congr_left fun item _ ↦ ?_
    dsimp only [Option.getD_some]
    split
    · rename_i hname
      rw [hname]
    · rfl
  · rename_i hmem
    rw [Table.upsert_of_not_mem fun hname ↦ hmem (Table.any_name_iff.2 hname)]
    rfl

end MemoryStore

namespace FileStore

variable {s s' : FileStore} {m : MemoryStore} {t t' v : Tree} {scope : Scope}
  {host key value name : String} {hosts : List (String × Table)} {table : Table}

/-! ## Hosts -/

/-- A mapping of hosts stands for their tables. -/
structure HostTables (v : Tree) (hosts : List (String × Table)) : Prop where
  isMapping : v.isMapping = true
  lists : Lists Tabulates v.entries hosts
  nodup : (hosts.map Prod.fst).Nodup
  named : "" ∉ hosts.map Prod.fst

theorem hostTables_empty (c : Comments) : HostTables (.mapping c []) [] :=
  ⟨rfl, .nil, List.nodup_nil, List.not_mem_nil⟩

namespace HostTables

theorem valueAt?_eq (h : HostTables v hosts) (host key : String) :
    valueAt? [host, key] v = hosts.lookup host >>= (·.get? key) := by
  rw [valueAt?, Tree.lookup?]
  rcases h.lists.lookup host with ⟨hnone, hnone'⟩ | ⟨w, table, hw, htable, hR⟩
  · rw [hnone, hnone']
    rfl
  · rw [hw, htable]
    exact hR.valueAt?_eq key

theorem storeAt (h : HostTables v hosts) (hhost : host ≠ "") (key value : String) :
    ∃ v', Tree.storeAt value host [key] v = .ok v' ∧
      HostTables v' (MemoryStore.setHost hosts host key value) := by
  have hnone : ∃ w, inside host (Tree.storeAt value key []) none = .ok w ∧
      Tabulates w (((none : Option Table).getD {}).insert key value) :=
    (tabulates_empty {}).storeText key value
  have hsome : ∀ w old, Tabulates w old → ∃ w', inside host (Tree.storeAt value key []) (some w) = .ok w' ∧
      Tabulates w' (((some old).getD {}).insert key value) := by
    intro w old hw
    obtain ⟨w', hw', htable⟩ := hw.storeText key value
    exact ⟨w', (inside_of_isMapping hw.isMapping).trans hw', htable⟩
  obtain ⟨entries', hentries, hlists⟩ := h.lists.updateEntries
    (g := fun o ↦ (o.getD {}).insert key value) host hnone hsome
  cases v with
  | mapping c entries =>
    refine ⟨.mapping c entries', update_eq_ok_iff.2 ⟨c, _, _, rfl, hentries, rfl⟩, rfl, ?_, ?_, ?_⟩
    · rw [MemoryStore.setHost_eq h.nodup]
      exact hlists
    · rw [MemoryStore.setHost_eq h.nodup]
      exact Table.nodup_upsert h.nodup
    · rw [MemoryStore.setHost_eq h.nodup]
      intro hmem
      rcases Table.mem_names_upsert hmem with heq | hold
      · exact hhost heq.symm
      · exact h.named hold
  | scalar => cases h.isMapping
  | sequence => cases h.isMapping

theorem remove? (h : HostTables v hosts) (host : String) :
    v.remove? host = none ∧ hosts.filter (·.1 ≠ host) = hosts ∨
      ∃ v', v.remove? host = some v' ∧ HostTables v' (hosts.filter (·.1 ≠ host)) := by
  cases v with
  | mapping c entries =>
    rw [Tree.remove?]
    split
    · refine .inr ⟨_, rfl, rfl, h.lists.eraseP h.nodup host, Table.nodup_filter h.nodup host, ?_⟩
      exact fun hmem ↦ h.named ((List.filter_sublist.map Prod.fst).subset hmem)
    · rename_i hmem
      refine .inl ⟨rfl, List.filter_eq_self.2 fun item hitem ↦ decide_eq_true ?_⟩
      rintro rfl
      exact hmem ((h.lists.any_hasKey _).2 (List.mem_map_of_mem hitem))
  | scalar => cases h.isMapping
  | sequence => cases h.isMapping

theorem filter_empty (h : HostTables v hosts) : hosts.filter (·.1 ≠ "") = hosts := by
  refine List.filter_eq_self.2 fun item hitem ↦ decide_eq_true ?_
  intro hempty
  exact h.named (hempty ▸ List.mem_map_of_mem hitem)

end HostTables

/-! ## All tables -/

/-- The keys under which the hosts and the scopes hang. -/
def tableKeys : List String :=
  ["hosts", Scope.aliases.key, Scope.localSettings.key]

/-- A tree and a store in memory that hold the same settings. -/
structure Mirrors (t : Tree) (m : MemoryStore) : Prop where
  isMapping : t.isMapping = true
  globals : ∀ key, key ∉ tableKeys →
    t.lookup? key = none ∧ m.globals.get? key = none ∨
      ∃ v text, t.lookup? key = some v ∧ v.text? = some text ∧ m.globals.get? key = some text
  reserved : ∀ key ∈ tableKeys, m.globals.get? key = none
  nodup : m.globals.names.Nodup
  hosts : t.lookup? "hosts" = none ∧ m.hostSettings = none ∨
    ∃ v hosts, t.lookup? "hosts" = some v ∧ m.hostSettings = some hosts ∧ HostTables v hosts
  scopes : ∀ scope, ∃ u, (∀ g, inside scope.key g (t.lookup? scope.key) = g u) ∧
    Tabulates u (m.scopeTable scope)

theorem mirrors_empty (environment : Environment) : Mirrors (.mapping {} []) { environment } where
  isMapping := rfl
  globals _ _ := .inl ⟨rfl, rfl⟩
  reserved _ _ := rfl
  nodup := List.nodup_nil
  hosts := .inl ⟨rfl, rfl⟩
  scopes scope := ⟨.mapping {} [], fun _ ↦ rfl, by cases scope <;> exact tabulates_empty {}⟩

theorem scopeKey_mem_tableKeys (scope : Scope) : scope.key ∈ tableKeys := by
  cases scope <;> decide

namespace Mirrors

theorem hostValue_eq (h : Mirrors t m) (host key : String) :
    valueAt? ["hosts", host, key] t = m.hostValue? host key := by
  rw [valueAt?, MemoryStore.hostValue?]
  rcases h.hosts with ⟨hnone, hnone'⟩ | ⟨v, hosts, hv, hhosts, htables⟩
  · rw [hnone, hnone']
    rfl
  · rw [hv, hhosts]
    exact htables.valueAt?_eq host key

theorem scopeValue_eq (h : Mirrors t m) (scope : Scope) (key : String) :
    valueAt? [scope.key, key] t = (m.scopeTable scope).get? key := by
  obtain ⟨u, hu, htable⟩ := h.scopes scope
  obtain ⟨u', -, hu', -, hold⟩ := inside_eq_ok (hu .ok)
  obtain rfl := Except.ok.inj hu'
  rw [valueAt?, ← hold key []]
  exact htable.valueAt?_eq key

theorem globalValue_eq (h : Mirrors t m) (key : String) :
    nonEmpty? (valueAt? [key] t) = nonEmpty? (m.globals.get? key) := by
  rw [valueAt?]
  by_cases hkey : key ∈ tableKeys
  · rw [h.reserved key hkey]
    rcases h with ⟨-, -, -, -, hhosts, hscopes⟩
    simp only [tableKeys, List.mem_cons, List.not_mem_nil, or_false] at hkey
    have hscope (scope : Scope) : nonEmpty? (t.lookup? scope.key >>= valueAt? []) = nonEmpty? none := by
      obtain ⟨u, hu, -⟩ := hscopes scope
      obtain ⟨-, -, -, hempty, -⟩ := inside_eq_ok (hu .ok)
      exact hempty
    rcases hkey with rfl | rfl | rfl
    · rcases hhosts with ⟨hnone, -⟩ | ⟨v, hosts, hv, -, htables⟩
      · rw [hnone]
        rfl
      · rw [hv]
        cases v with
        | mapping => rfl
        | scalar => cases htables.isMapping
        | sequence => cases htables.isMapping
    · exact hscope .aliases
    · exact hscope .localSettings
  · rcases h.globals key hkey with ⟨hnone, hnone'⟩ | ⟨v, text, hv, htext, hglobal⟩
    · rw [hnone, hnone']
      rfl
    · rw [hv, hglobal, ← htext]
      rfl

/-! ## Changes of the tree -/

/-- A global setting is stored. -/
theorem setGlobal (h : Mirrors t m) (hkey : key ∉ tableKeys) (value : String) :
    ∃ t', t.update key (storeText key value) = .ok t' ∧
      Mirrors t' { m with globals := m.globals.insert key value } := by
  have hstore : ∃ w, storeText key value (t.lookup? key) = .ok w ∧ w.text? = some value := by
    rcases h.globals key hkey with ⟨hnone, -⟩ | ⟨v, text, hv, htext, -⟩
    · rw [hnone]
      exact ⟨_, rfl, rfl⟩
    · rw [hv]
      cases v with
      | scalar c _ style => exact ⟨_, rfl, rfl⟩
      | mapping => cases htext
      | sequence => cases htext
  obtain ⟨w, hw, htext⟩ := hstore
  obtain ⟨t', ht'⟩ := exists_update h.isMapping hw
  have hother : ∀ key', key' ≠ key → t'.lookup? key' = t.lookup? key' :=
    fun key' hne ↦ lookup?_update_of_ne ht' hne
  have hreserved : ∀ key' ∈ tableKeys, key' ≠ key := fun key' hmem ↦ ne_of_mem_of_not_mem hmem hkey
  refine ⟨t', ht', isMapping_update ht', fun key' hkey' ↦ ?_, fun key' hmem ↦ ?_,
    Table.nodup_insert h.nodup key value, ?_, fun scope ↦ ?_⟩
  · by_cases hsame : key' = key
    · subst hsame
      obtain ⟨w', hw', hlookup⟩ := lookup?_update ht'
      rw [hw] at hw'
      obtain rfl := Except.ok.inj hw'
      exact .inr ⟨w, value, hlookup, htext, Table.get?_insert_self h.nodup key' value⟩
    · rw [hother key' hsame, Table.get?_insert_of_ne h.nodup hsame]
      exact h.globals key' hkey'
  · rw [Table.get?_insert_of_ne h.nodup (hreserved key' hmem)]
    exact h.reserved key' hmem
  · rw [hother _ (hreserved _ (by decide))]
    exact h.hosts
  · rw [hother _ (hreserved _ (scopeKey_mem_tableKeys scope))]
    exact h.scopes scope

/-- The mapping of the hosts has become another one. -/
theorem updateHosts (h : Mirrors t m) (hv : HostTables v hosts)
    (ht : t.update "hosts" (fun _ ↦ .ok v) = .ok t') :
    Mirrors t' { m with hostSettings := some hosts } := by
  refine ⟨isMapping_update ht, fun key hkey ↦ ?_, h.reserved, h.nodup, .inr ?_, fun scope ↦ ?_⟩
  · rw [lookup?_update_of_ne ht (ne_of_mem_of_not_mem (by decide) hkey).symm]
    exact h.globals key hkey
  · obtain ⟨w, hw, hlookup⟩ := lookup?_update ht
    obtain rfl := Except.ok.inj hw
    exact ⟨v, hosts, hlookup, rfl, hv⟩
  · rw [lookup?_update_of_ne ht (by cases scope <;> decide)]
    exact h.scopes scope

/-- A setting of a host is stored. -/
theorem setHost (h : Mirrors t m) (hhost : host ≠ "") (key value : String) :
    ∃ t', storeAt value "hosts" [host, key] t = .ok t' ∧
      Mirrors t' { m with
        hostSettings := some (MemoryStore.setHost (m.hostSettings.getD []) host key value) } := by
  obtain ⟨u, hu, htables⟩ : ∃ u, (∀ g, inside "hosts" g (t.lookup? "hosts") = g u) ∧
      HostTables u (m.hostSettings.getD []) := by
    rcases h.hosts with ⟨hnone, hnone'⟩ | ⟨v, hosts, hv, hhosts, htables⟩
    · rw [hnone, hnone']
      exact ⟨.mapping {} [], fun _ ↦ rfl, hostTables_empty {}⟩
    · rw [hv, hhosts]
      exact ⟨v, fun _ ↦ inside_of_isMapping htables.isMapping, htables⟩
  obtain ⟨u', hstore, htables'⟩ := htables.storeAt hhost key value
  obtain ⟨t', ht'⟩ := exists_update (f := fun _ ↦ .ok u') h.isMapping rfl
  exact ⟨t', storeAt_of_inside hu hstore ht', h.updateHosts htables' ht'⟩

/-- A host is removed. -/
theorem unsetHost (h : Mirrors t m) (host : String) :
    Mirrors (t.dropBelow "hosts" host) (m.unsetHost host) := by
  rcases h.hosts with ⟨hnone, hnone'⟩ | ⟨v, hosts, hv, hhosts, htables⟩
  · rw [dropBelow_eq_self, MemoryStore.unsetHost, hnone', Option.map_none, ← hnone']
    · exact h
    · rw [hnone]
      rfl
  · rw [MemoryStore.unsetHost, hhosts, Option.map_some]
    rcases htables.remove? host with ⟨hremove, hkept⟩ | ⟨v', hremove, htables'⟩
    · rw [hkept, ← hhosts, dropBelow_eq_self]
      · exact h
      · rw [hv]
        exact hremove
    · obtain ⟨t', ht'⟩ := exists_update (f := fun _ ↦ .ok v') h.isMapping rfl
      rw [dropBelow_eq (u := v') _ ht']
      · exact h.updateHosts htables' ht'
      · rw [hv]
        exact hremove

theorem unsetHost_empty (h : Mirrors t m) : m.unsetHost "" = m := by
  rcases h.hosts with ⟨-, hnone⟩ | ⟨v, hosts, -, hhosts, htables⟩
  · rw [MemoryStore.unsetHost, hnone, Option.map_none, ← hnone]
  · rw [MemoryStore.unsetHost, hhosts, Option.map_some, htables.filter_empty, ← hhosts]

/-- The mapping of a scope has become another one. -/
theorem updateScope (h : Mirrors t m) (hv : Tabulates v table)
    (ht : t.update scope.key (fun _ ↦ .ok v) = .ok t') : Mirrors t' (m.setScopeTable scope table) := by
  refine ⟨isMapping_update ht, fun key hkey ↦ ?_, ?_, ?_, ?_, fun other ↦ ?_⟩
  · rw [lookup?_update_of_ne ht (ne_of_mem_of_not_mem (scopeKey_mem_tableKeys scope) hkey).symm,
      MemoryStore.globals_setScopeTable]
    exact h.globals key hkey
  · rw [MemoryStore.globals_setScopeTable]
    exact h.reserved
  · rw [MemoryStore.globals_setScopeTable]
    exact h.nodup
  · rw [lookup?_update_of_ne ht (key_ne_hosts scope).symm, MemoryStore.hostSettings_setScopeTable]
    exact h.hosts
  · by_cases heq : other = scope
    · subst heq
      obtain ⟨w, hw, hlookup⟩ := lookup?_update ht
      obtain rfl := Except.ok.inj hw
      refine ⟨v, fun g ↦ ?_, ?_⟩
      · rw [hlookup, inside_of_isMapping hv.isMapping]
      · rw [MemoryStore.scopeTable_setScopeTable]
        exact hv
    · rw [lookup?_update_of_ne ht fun hkey ↦ heq (key_injective hkey),
        MemoryStore.scopeTable_setScopeTable_of_ne m heq]
      exact h.scopes other

end Mirrors

end FileStore

end LayeredConfig
