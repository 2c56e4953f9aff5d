import LayeredConfig.CommandLine.Run
import LayeredConfig.Proofs.Store.History

/-!
# Where a value comes from

The tool shows a setting together with its source. The value is looked up under the canonical key
and the source under the spelling that was given, each with its own walk along the variables and
the layers of the store. The main statement says that both walks end at the same place, and where
that is can be read off the source.
-/

namespace LayeredConfig.CommandLine

open LayeredConfig.FileStore

variable {s : FileStore} {env : Environment} {host key name value source : String}

/-! ## Variables -/

/-- No variable of a key has a value that is not empty. -/
def Unset (env : Environment) (key : String) : Prop :=
  ∀ name ∈ Key.variableNames key, nonEmpty? (env.get? name) = none

/-- The first variable of a key that has a value that is not empty, and that value. -/
def FirstSet (env : Environment) (key name value : String) : Prop :=
  ∃ before after, Key.variableNames key = before ++ name :: after ∧
    (∀ other ∈ before, nonEmpty? (env.get? other) = none) ∧
    nonEmpty? (env.get? name) = some value

theorem firstNonEmpty?_singleton (env : Environment) (name : String) :
    env.firstNonEmpty? [name] = nonEmpty? (env.get? name) := by
  rw [firstNonEmpty?_eq]
  exact List.findSome?_singleton

theorem unset_of_decidingVariable? (h : decidingVariable? env key = none) : Unset env key := by
  intro name hname
  have hnone := List.find?_eq_none.1 h name hname
  rw [firstNonEmpty?_singleton] at hnone
  simpa using hnone

theorem firstSet_of_decidingVariable? (h : decidingVariable? env key = some name) :
    ∃ value, FirstSet env key name value := by
  obtain ⟨hname, before, after, hnames, hbefore⟩ := List.find?_eq_some_iff_append.1 h
  rw [firstNonEmpty?_singleton] at hname
  obtain ⟨value, hvalue⟩ := Option.isSome_iff_exists.1 hname
  refine ⟨value, before, after, hnames, fun other hother ↦ ?_, hvalue⟩
  have hnone := hbefore other hother
  rw [firstNonEmpty?_singleton] at hnone
  simpa using hnone

theorem firstNonEmpty?_of_unset (h : Unset env key) :
    env.firstNonEmpty? (Key.variableNames key) = none := by
  rw [firstNonEmpty?_eq, firstValue?, List.findSome?_map]
  exact List.findSome?_eq_none_iff.2 h

theorem firstNonEmpty?_of_firstSet (h : FirstSet env key name value) :
    env.firstNonEmpty? (Key.variableNames key) = some value := by
  obtain ⟨before, after, hnames, hbefore, hvalue⟩ := h
  rw [firstNonEmpty?_eq, firstValue?, List.findSome?_map]
  exact List.findSome?_eq_some_iff.2 ⟨before, name, after, hnames, hvalue, hbefore⟩

/-! ## Origins -/

/-- The host of a lookup has no value for a key, or an empty one; or there is no host. -/
def HostSilent (s : FileStore) (host key : String) : Prop :=
  host ≠ "" → nonEmpty? (s.hostValue? host (Key.canonical key)) = none

/-- The values that a setting can have, each with the source that is named for it. -/
inductive Origin (s : FileStore) (host key : String) : String → String → Prop
  | fromEnvironment {name value : String} (hset : FirstSet s.environment key name value) :
      Origin s host key value ("$" ++ name)
  | atHost {value : String} (hunset : Unset s.environment key) (hhost : host ≠ "")
      (hvalue : nonEmpty? (s.hostValue? host (Key.canonical key)) = some value) :
      Origin s host key value s.locations.mainFile.text
  | atLocal {value : String} (hunset : Unset s.environment key) (hhost : HostSilent s host key)
      (hvalue : nonEmpty? (s.localValue? (Key.canonical key)) = some value) :
      Origin s host key value s.locations.localFile.text
  | atTop {value : String} (hunset : Unset s.environment key) (hhost : HostSilent s host key)
      (hlocal : nonEmpty? (s.localValue? (Key.canonical key)) = none)
      (hvalue : nonEmpty? (s.globalValue? (Key.canonical key)) = some value) :
      Origin s host key value s.locations.mainFile.text
  | byDefault (hunset : Unset s.environment key) (hhost : HostSilent s host key)
      (hlocal : nonEmpty? (s.localValue? (Key.canonical key)) = none)
      (hglobal : nonEmpty? (s.globalValue? (Key.canonical key)) = none) :
      Origin s host key (Key.default key) s.locations.mainFile.text

theorem get_eq_getD (s : FileStore) (host key : String) :
    s.get host key =
      (s.environment.firstNonEmpty? (Key.variableNames key)).getD (s.getWithSource host key).1 := by
  rw [FileStore.get, effectiveValue, Key.variableNames_canonical, getWithSource_fst,
    Key.canonical_canonical, ← getWithSource_fst]

/-- What the store itself answers and the file that it names belong together. -/
theorem origin_of_getWithSource {file : Path} (hunset : Unset s.environment key)
    (h : s.getWithSource host key = (value, file)) : Origin s host key value file.text := by
  simp only [getWithSource] at h
  cases hhost : (if host.isEmpty then none
      else nonEmpty? (s.hostValue? host (Key.canonical key))) with
  | some found =>
    rw [hhost] at h
    obtain ⟨rfl, rfl⟩ := Prod.mk.inj h
    obtain ⟨hnamed, hvalue⟩ := Option.ite_none_left_eq_some.1 hhost
    exact .atHost hunset (fun hempty ↦ hnamed (String.isEmpty_iff.2 hempty)) hvalue
  | none =>
    have hsilent : HostSilent s host key := by
      intro hnamed
      rwa [if_neg fun hempty ↦ hnamed (String.isEmpty_iff.1 hempty)] at hhost
    rw [hhost] at h
    cases hlocal : nonEmpty? (s.localValue? (Key.canonical key)) with
    | some found =>
      rw [hlocal] at h
      obtain ⟨rfl, rfl⟩ := Prod.mk.inj h
      exact .atLocal hunset hsilent hlocal
    | none =>
      rw [hlocal] at h
      cases hglobal : nonEmpty? (s.globalValue? (Key.canonical key)) with
      | some found =>
        rw [hglobal] at h
        obtain ⟨rfl, rfl⟩ := Prod.mk.inj h
        exact .atTop hunset hsilent hlocal hglobal
      | none =>
        rw [hglobal] at h
        obtain ⟨rfl, rfl⟩ := Prod.mk.inj h
        rw [Key.default_canonical]
        exact .byDefault hunset hsilent hlocal hglobal

/-- The value of a setting and its source belong together. -/
theorem origin_get (s : FileStore) (host key : String) :
    Origin s host key (s.get host key) (valueSource s host key) := by
  rw [get_eq_getD, valueSource]
  cases hdeciding : decidingVariable? s.environment key with
  | some name =>
    obtain ⟨value, hset⟩ := firstSet_of_decidingVariable? hdeciding
    rw [firstNonEmpty?_of_firstSet hset]
    exact .fromEnvironment hset
  | none =>
    have hunset := unset_of_decidingVariable? hdeciding
    rw [firstNonEmpty?_of_unset hunset]
    exact origin_of_getWithSource hunset rfl

/-! ## Variables and files are told apart -/

theorem slash_mem_of_join (p : Path) (part : String) (hpart : part.toList.head? ≠ some '/') :
    (p.join part).text = part ∨ '/' ∈ (p.join part).text.toList := by
  unfold Path.join
  rw [if_neg hpart]
  by_cases hempty : p.isEmpty
  · left
    rw [hempty, Bool.true_or, if_pos rfl, String.isEmpty_iff.1 hempty, String.empty_append]
  · right
    split
    · rename_i hlast
      have hslash : p.chars.getLast? = some '/' := by simpa [hempty] using hlast
      rw [String.toList_append]
      exact List.mem_append_left _ (List.mem_of_getLast? hslash)
    · simp

/-- No file has the name of a variable behind a dollar sign. -/
theorem join_ne_dollar (p : Path) (hname : '/' ∉ name.toList) :
    (p.join "config.yml").text ≠ "$" ++ name := by
  intro htext
  rcases slash_mem_of_join p "config.yml" (by decide) with hplain | hslash
  · have hhead := congrArg (·.toList.head?) (hplain.symm.trans htext)
    simp at hhead
  · rw [htext, String.toList_append] at hslash
    exact hname (by simpa using hslash)

theorem FirstSet.slash_notMem (h : FirstSet env key name value) : '/' ∉ name.toList := by
  obtain ⟨before, after, hnames, -⟩ := h
  have hmem : name ∈ Key.variableNames key := by
    rw [hnames]
    exact List.mem_append_right _ List.mem_cons_self
  exact Key.slash_notMem_of_mem_variableNames hmem

theorem Origin.of_dollar (h : Origin s host key value source) (hname : '/' ∉ name.toList)
    (hsource : source = "$" ++ name) : FirstSet s.environment key name value := by
  cases h with
  | fromEnvironment hset =>
    obtain rfl := (String.append_right_inj "$").1 hsource
    exact hset
  | atHost => exact absurd hsource (join_ne_dollar _ hname)
  | atLocal => exact absurd hsource (join_ne_dollar _ hname)
  | atTop => exact absurd hsource (join_ne_dollar _ hname)
  | byDefault => exact absurd hsource (join_ne_dollar _ hname)

theorem Origin.of_localFile (h : Origin s host key value source)
    (hpaths : s.locations.mainFile ≠ s.locations.localFile)
    (hsource : source = s.locations.localFile.text) :
    Unset s.environment key ∧ HostSilent s host key ∧
      nonEmpty? (s.localValue? (Key.canonical key)) = some value := by
  have hmain : s.locations.mainFile.text ≠ s.locations.localFile.text :=
    fun htext ↦ hpaths (congrArg Path.mk htext)
  cases h with
  | fromEnvironment hset => exact absurd hsource.symm (join_ne_dollar _ hset.slash_notMem)
  | atHost => exact absurd hsource hmain
  | atLocal hunset hhost hvalue => exact ⟨hunset, hhost, hvalue⟩
  | atTop => exact absurd hsource hmain
  | byDefault => exact absurd hsource hmain

theorem Origin.of_mainFile (h : Origin s host key value source)
    (hvariable : ∀ name, '/' ∉ name.toList → source ≠ "$" ++ name)
    (hlocalFile : source ≠ s.locations.localFile.text) :
    source = s.locations.mainFile.text ∧ Unset s.environment key ∧
      (host ≠ "" ∧ nonEmpty? (s.hostValue? host (Key.canonical key)) = some value ∨
        HostSilent s host key ∧ nonEmpty? (s.localValue? (Key.canonical key)) = none ∧
          value = (nonEmpty? (s.globalValue? (Key.canonical key))).getD (Key.default key)) := by
  cases h with
  | fromEnvironment hset => exact absurd rfl (hvariable _ hset.slash_notMem)
  | atHost hunset hhost hvalue => exact ⟨rfl, hunset, .inl ⟨hhost, hvalue⟩⟩
  | atLocal => exact absurd rfl hlocalFile
  | atTop hunset hhost hlocal hvalue =>
    exact ⟨rfl, hunset, .inr ⟨hhost, hlocal, by rw [hvalue, Option.getD_some]⟩⟩
  | byDefault hunset hhost hlocal hglobal =>
    exact ⟨rfl, hunset, .inr ⟨hhost, hlocal, by rw [hglobal, Option.getD_none]⟩⟩

/-! ## The printed source -/

/-- The printed source says where the printed value was found, whatever the spelling of the key:
behind a dollar sign stands the first variable of the key that is set, the local file is named for
a value that neither a variable nor the host overrides, and the main file for all else. The path
of a file may begin with a dollar sign too, but has a slash behind it, which no variable has. -/
theorem source_of_get (s : FileStore) (hpaths : s.locations.mainFile ≠ s.locations.localFile)
    (host key : String) :
    runConfig s (.get key host true) = pure (.ofLines [Json.object
      [("key", key), ("value", s.get host key), ("source", valueSource s host key)]]) ∧
    (∀ name, '/' ∉ name.toList → valueSource s host key = "$" ++ name →
      FirstSet s.environment key name (s.get host key)) ∧
    (valueSource s host key = s.locations.localFile.text →
      Unset s.environment key ∧ HostSilent s host key ∧
        nonEmpty? (s.localValue? (Key.canonical key)) = some (s.get host key)) ∧
    ((∀ name, '/' ∉ name.toList → valueSource s host key ≠ "$" ++ name) →
      valueSource s host key ≠ s.locations.localFile.text →
      valueSource s host key = s.locations.mainFile.text ∧ Unset s.environment key ∧
        (host ≠ "" ∧ nonEmpty? (s.hostValue? host (Key.canonical key)) = some (s.get host key) ∨
          HostSilent s host key ∧ nonEmpty? (s.localValue? (Key.canonical key)) = none ∧
            s.get host key =
              (nonEmpty? (s.globalValue? (Key.canonical key))).getD (Key.default key))) := by
  have horigin := origin_get s host key
  exact ⟨rfl, fun name hname hsource ↦ horigin.of_dollar hname hsource,
    horigin.of_localFile hpaths, horigin.of_mainFile⟩

/-- The variable is empty and the host has no token, so the local one is shown and not the global
one. -/
theorem source_of_get_localToken :
    ∃ s : FileStore, s.locations.mainFile ≠ s.locations.localFile ∧
      valueSource s "gitlab.com" "oauth_token" = s.locations.localFile.text ∧
      Unset s.environment "oauth_token" ∧ HostSilent s "gitlab.com" "oauth_token" ∧
      nonEmpty? (s.localValue? "token") = some "inner" := by
  obtain ⟨d, -, hhost, hlocal⟩ :
      ∃ d, Document.parse "token: outer\nlocal:\n  token: inner\n" = .ok d ∧
        (FileStore.mk d ⟨⟨"/cfg"⟩, ⟨"/repo"⟩⟩ {}).hostValue? "gitlab.com" "token" = none ∧
        (FileStore.mk d ⟨⟨"/cfg"⟩, ⟨"/repo"⟩⟩ {}).localValue? "token" = some "inner" :=
    ⟨_, by cbv, by cbv, by cbv⟩
  let s : FileStore := ⟨d, ⟨⟨"/cfg"⟩, ⟨"/repo"⟩⟩, ⟨[("GITLAB_TOKEN", "")]⟩⟩
  have hpaths : s.locations.mainFile ≠ s.locations.localFile := by
    change Path.join ⟨"/cfg"⟩ "config.yml" ≠ Path.join ⟨"/repo"⟩ "config.yml"
    decide
  have hcanonical : Key.canonical "oauth_token" = "token" := by decide
  have hinner : s.getWithSource "gitlab.com" "oauth_token" = ("inner", s.locations.localFile) := by
    change s.hostValue? "gitlab.com" "token" = none at hhost
    change s.localValue? "token" = some "inner" at hlocal
    have hnonEmpty : nonEmpty? (some "inner") = some "inner" := by decide
    simp [getWithSource, hcanonical, hhost, hlocal, show nonEmpty? none = none from rfl, hnonEmpty]
  have hdeciding : decidingVariable? s.environment "oauth_token" = none := by rfl
  have hvalue : s.get "gitlab.com" "oauth_token" = "inner" := by
    rw [get_eq_getD, firstNonEmpty?_of_unset (unset_of_decidingVariable? hdeciding), hinner,
      Option.getD_none]
  have hsource : valueSource s "gitlab.com" "oauth_token" = s.locations.localFile.text := by
    rw [valueSource, hdeciding, hinner]
  obtain ⟨-, -, hshown, -⟩ := source_of_get s hpaths "gitlab.com" "oauth_token"
  obtain ⟨hunset, hsilent, hnonEmpty⟩ := hshown hsource
  rw [hvalue, hcanonical] at hnonEmpty
  exact ⟨s, hpaths, hsource, hunset, hsilent, hnonEmpty⟩

end LayeredConfig.CommandLine
