import LayeredConfig.Settings.Key

/-!
# Canonical keys

A canonical key stands for itself, so that it does not matter how often a key is made canonical.
Variables and default of a key are those of its canonical key.
-/

namespace LayeredConfig.Key

theorem canonical_of_mem_known : ∀ k ∈ known, canonical k.canonical = k.canonical := by
  decide

theorem canonical_canonical (key : String) : canonical (canonical key) = canonical key := by
  cases h : find? key with
  | none =>
    have hself : canonical key = key := by rw [canonical, h]
    rw [hself, hself]
  | some k =>
    have hknown : canonical key = k.canonical := by rw [canonical, h]
    rw [hknown]
    exact canonical_of_mem_known k (List.mem_of_find?_eq_some h)

theorem find?_canonical_of_mem_known : ∀ k ∈ known, find? k.canonical = some k := by
  decide

/-- What is known of a key does not hang on its spelling. -/
theorem find?_canonical (key : String) : find? (canonical key) = find? key := by
  cases h : find? key with
  | none => rwa [canonical, h]
  | some k =>
    rw [canonical, h]
    exact find?_canonical_of_mem_known k (List.mem_of_find?_eq_some h)

theorem variableNames_canonical (key : String) :
    variableNames (canonical key) = variableNames key := by
  rw [variableNames, find?_canonical, variableNames]

theorem default_canonical (key : String) : default (canonical key) = default key := by
  rw [default, find?_canonical, default]

theorem slash_notMem_of_mem_known :
    ∀ k ∈ known, ∀ name ∈ k.variableNames, '/' ∉ name.toList := by
  decide

theorem slash_notMem_of_mem_variableNames {key name : String} (h : name ∈ variableNames key) :
    '/' ∉ name.toList := by
  rw [variableNames] at h
  split at h
  · rename_i k hfind
    exact slash_notMem_of_mem_known k (List.mem_of_find?_eq_some hfind) name h
  · exact absurd h List.not_mem_nil

end LayeredConfig.Key
