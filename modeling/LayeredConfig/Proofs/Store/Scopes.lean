import LayeredConfig.Proofs.Document.SameTexts
import LayeredConfig.Proofs.Store.Loading
import LayeredConfig.Proofs.Store.Reached

/-!
# Scopes in the tree of a store

The document of the alias file and that of the local file hang under keys of their own. A file
that was merged has taken the place of whatever the main file has under such a key, and nothing
else of the main file has changed.
-/

namespace LayeredConfig.FileStore

open LayeredConfig.Tree
open LayeredConfig.Document

variable {s s' : FileStore} {t t' u : Tree} {scope : Scope} {key : String}

/-! ## Keys of scopes -/

/-- The keys that the main file leaves out. -/
def scopeKeys : List String :=
  [Scope.aliases.key, Scope.localSettings.key]

theorem key_mem_scopeKeys (scope : Scope) : scope.key ∈ scopeKeys := by
  cases scope <;> decide

theorem key_ne_hosts (scope : Scope) : scope.key ≠ "hosts" := by
  cases scope <;> decide

theorem exists_scope_of_mem (h : key ∈ scopeKeys) : ∃ scope : Scope, key = scope.key := by
  simp only [scopeKeys, List.mem_cons, List.not_mem_nil, or_false] at h
  rcases h with rfl | rfl
  · exact ⟨.aliases, rfl⟩
  · exact ⟨.localSettings, rfl⟩

theorem key_injective {scope other : Scope} (h : scope.key = other.key) : scope = other := by
  cases scope <;> cases other <;> first | rfl | exact absurd h (by decide)

theorem canonical_ne_scopeKey (h : key ≠ scope.key) : Key.canonical key ≠ scope.key := by
  rw [Key.canonical]
  split
  · rename_i k hfound
    have hknown : ∀ k ∈ Key.known, ∀ scope ∈ [Scope.aliases, Scope.localSettings],
        k.canonical ≠ scope.key := by decide
    refine hknown k (List.mem_of_find?_eq_some hfound) scope ?_
    cases scope <;> simp
  · exact h

theorem settingPath_not_mem_scopeKeys {host : String}
    (h : host = "" → ∀ scope : Scope, key ≠ scope.key) :
    (settingPath host (Key.canonical key)).1 ∉ scopeKeys := by
  unfold settingPath
  split
  · rename_i hhost
    have hkey := h (String.isEmpty_iff.1 hhost)
    simp only [scopeKeys, List.mem_cons, List.not_mem_nil, or_false, not_or]
    exact ⟨canonical_ne_scopeKey (hkey .aliases), canonical_ne_scopeKey (hkey .localSettings)⟩
  · have hhosts : "hosts" ∉ scopeKeys := by decide
    exact hhosts

/-! ## Merged files -/

theorem exists_parse_of_stored {disk : Disk} {path : Path} {found : Option Document}
    (h : Stored disk path found) : ∀ d, found = some d → ∃ text, parse text = .ok d := by
  intro d heq
  cases h with
  | missing => cases heq
  | found h hparse =>
    obtain rfl := Option.some.inj heq
    exact ⟨_, hparse⟩

/-- The tree of the main file and the trees of the scopes that have files, in one tree. -/
structure Overlay (t u : Tree) (part : Scope → Option Tree) : Prop where
  isMapping : t.isMapping = true
  without : t.without scopeKeys = u.without scopeKeys
  lookup : ∀ scope, t.lookup? scope.key = (part scope).or (u.lookup? scope.key)

theorem holds_merged {found : Option Document} (h : s.document.Holds t) (hmap : t.isMapping = true)
    (hparse : ∀ d, found = some d → ∃ text, parse text = .ok d) :
    ∃ t', (s.merged scope found).document.Holds t' ∧ t'.isMapping = true ∧
      t'.without scopeKeys = t.without scopeKeys ∧
      t'.lookup? scope.key = (found >>= Document.tree?).or (t.lookup? scope.key) ∧
      ∀ key, key ≠ scope.key → t'.lookup? key = t.lookup? key := by
  cases found with
  | none => exact ⟨t, h, hmap, rfl, rfl, fun _ _ ↦ rfl⟩
  | some d =>
    obtain ⟨text, hd⟩ := hparse d rfl
    obtain ⟨u, hu, -⟩ := holds_of_parse hd
    obtain ⟨places, hangs, hnodup⟩ := h
    obtain ⟨t', places', ht', hbecomes⟩ := hangs.spliceValue hnodup hmap scope.key u
    refine ⟨t', ?_, isMapping_update ht', without_update (key_mem_scopeKeys scope) ht', ?_,
      fun key hne ↦ lookup?_update_of_ne ht' hne⟩
    · rw [merged, hu.tree?]
      exact hbecomes.holds
    · obtain ⟨v, hv, hlookup⟩ := lookup?_update ht'
      obtain rfl := Except.ok.inj hv
      rw [hlookup, Option.bind_eq_bind, Option.bind_some, hu.tree?]
      rfl

/-- What is loaded holds the main file and the files of the scopes. -/
theorem holds_assembled {d : Document} {part : Scope → Option Document} (h : d.Holds u)
    (hmap : u.isMapping = true)
    (hparse : ∀ scope d, part scope = some d → ∃ text, parse text = .ok d)
    (locations : Locations) (environment : Environment) :
    ∃ t, (assembled d locations environment part).document.Holds t ∧
      Overlay t u fun scope ↦ part scope >>= Document.tree? := by
  obtain ⟨t₁, ht₁, hmap₁, hwithout₁, hlookup₁, hother₁⟩ :=
    holds_merged (s := ⟨d, locations, environment⟩) h hmap (hparse .aliases)
  obtain ⟨t, ht, hmap', hwithout, hlookup, hother⟩ := holds_merged ht₁ hmap₁ (hparse .localSettings)
  refine ⟨t, ht, hmap', hwithout.trans hwithout₁, fun scope ↦ ?_⟩
  cases scope with
  | aliases => rw [hother _ (by decide), hlookup₁]
  | localSettings => rw [hlookup, hother₁ _ (by decide)]

/-! ## Tables -/

/-- The table of a scope, if the scope can be opened. -/
def table? (s : FileStore) (scope : Scope) : Option Table :=
  match s.openScope scope with
  | .ok (s, map) => some (s.scopeAll map)
  | .error _ => none

/-- The table that stands for what hangs under the key of a scope. -/
def tableOf (scope : Scope) (o : Option Tree) : Option Table :=
  (Tree.inside scope.key .ok o).toOption.map fun u ↦ ⟨u.texts⟩

theorem table?_eq (h : s.document.Holds t) (hmap : t.isMapping = true) (scope : Scope) :
    s.table? scope = tableOf scope (t.lookup? scope.key) := by
  obtain ⟨places, hangs, hnodup⟩ := h
  rw [table?, tableOf]
  split
  · rename_i s' map hopen
    obtain ⟨d, hensure, rfl⟩ := openScope_eq_ok hopen
    obtain ⟨u, uPlaces, -, hu, hinside⟩ := hangs.ensureMapping hnodup hensure
    rw [hu, scopeAll, hinside.hangs.snapshot_eq]
    rfl
  · rename_i e hopen
    cases hinside : Tree.inside scope.key .ok (t.lookup? scope.key) with
    | error e' => rfl
    | ok v =>
      obtain ⟨t', ht'⟩ := exists_update hmap hinside
      rw [hangs.update_of_ensureMapping_error hnodup (openScope_eq_error hopen)] at ht'
      cases ht'

/-- Under the key of a scope whose table is empty, no text is found. -/
theorem value_of_tableOf_empty {o : Option Tree} (h : tableOf scope o = some ⟨[]⟩) :
    nonEmpty? (o >>= Tree.text?) = none ∧ ∀ key, o >>= valueAt? [key] = none := by
  cases hinside : Tree.inside scope.key .ok o with
  | error e =>
    rw [tableOf, hinside] at h
    cases h
  | ok u =>
    obtain ⟨v, -, hv, htext, hvalue⟩ := inside_eq_ok hinside
    obtain rfl := Except.ok.inj hv
    rw [tableOf, hinside] at h
    have htable := Table.mk.inj (Option.some.inj h)
    refine ⟨htext, fun key ↦ ?_⟩
    rw [← hvalue]
    exact valueAt?_of_texts_eq_nil htable key

end LayeredConfig.FileStore
