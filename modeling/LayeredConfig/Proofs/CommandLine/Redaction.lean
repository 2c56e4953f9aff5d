import LayeredConfig.CommandLine.Run
import LayeredConfig.Proofs.Store.History
import LayeredConfig.Proofs.Store.Reached

/-!
# What redacted output gives away

A token can come from several variables and from several places in the files. Two stores that
differ in nothing but the texts of tokens, none of which is set in one store and missing or empty
in the other, look the same wherever secrets are hidden. The stores are compared at the paths of
their trees, then along the layers of a setting, and last in what is shown.
-/

namespace LayeredConfig

/-- Two texts are the same, or there is a text on both sides and what it says is hidden. -/
def Veiled (hidden : Prop) (x y : String) : Prop :=
  x = y ∨ hidden ∧ x ≠ "" ∧ y ≠ ""

section Values

variable {hidden hidden' : Prop} {x y : String} {v w : Option String}

theorem Veiled.imp (h : Veiled hidden x y) (himp : hidden → hidden') : Veiled hidden' x y := by
  rcases h with rfl | ⟨hhidden, hx, hy⟩
  · exact .inl rfl
  · exact .inr ⟨himp hhidden, hx, hy⟩

/-- A secret is shown as a placeholder on both sides. -/
theorem Veiled.display {name : String} (h : Veiled (Secret.looksSecret name = true) x y) :
    Secret.display true name x = Secret.display true name y := by
  rcases h with rfl | ⟨hsecret, hx, hy⟩
  · rfl
  · rw [Secret.display, Secret.display, hsecret]
    simp [hx, hy]

/-! ## Values of a setting -/

theorem rel_veiled_refl (hidden : Prop) (v : Option String) : Option.Rel (Veiled hidden) v v := by
  cases v with
  | none => exact .none
  | some x => exact .some (.inl rfl)

theorem rel_veiled_imp (h : Option.Rel (Veiled hidden) v w) (himp : hidden → hidden') :
    Option.Rel (Veiled hidden') v w := by
  cases h with
  | none => exact .none
  | some hxy => exact .some (hxy.imp himp)

theorem rel_nonEmpty? (h : Option.Rel (Veiled hidden) v w) :
    Option.Rel (Veiled hidden) (nonEmpty? v) (nonEmpty? w) := by
  have hkept {x : String} (hx : x ≠ "") : nonEmpty? (some x) = some x := by
    simp [nonEmpty?, Option.filter, hx]
  cases h with
  | none => exact .none
  | some hxy =>
    rcases hxy with rfl | ⟨hhidden, hx, hy⟩
    · exact rel_veiled_refl hidden _
    · rw [hkept hx, hkept hy]
      exact .some (.inr ⟨hhidden, hx, hy⟩)

theorem rel_firstValue? {vs ws : List (Option String)}
    (h : List.Forall₂ (Option.Rel (Veiled hidden)) vs ws) :
    Option.Rel (Veiled hidden) (FileStore.firstValue? vs) (FileStore.firstValue? ws) := by
  induction h with
  | nil => exact .none
  | @cons v w _ _ hvalue _ ih =>
    rw [FileStore.firstValue?, List.findSome?_cons, FileStore.firstValue?, List.findSome?_cons]
    have hfirst := rel_nonEmpty? hvalue
    generalize nonEmpty? v = first, nonEmpty? w = first' at hfirst ⊢
    cases hfirst with
    | none => exact ih
    | some hxy => exact .some hxy

theorem veiled_getD (h : Option.Rel (Veiled hidden) v w) (default : String) :
    Veiled hidden (v.getD default) (w.getD default) := by
  cases h with
  | none => exact .inl rfl
  | some hxy => exact hxy

end Values

/-! ## Texts of a tree -/

namespace Tree

mutual

/-- Two trees are the same apart from texts at hidden paths. -/
inductive VeiledTree : (List String → Prop) → Tree → Tree → Prop
  | same (hidden : List String → Prop) (t : Tree) : VeiledTree hidden t t
  | text {hidden : List String → Prop} {x y : String} (hhidden : hidden []) (hx : x ≠ "")
      (hy : y ≠ "") (c : Comments) (style style' : ScalarStyle) :
      VeiledTree hidden (.scalar c x style) (.scalar c y style')
  | mapping {hidden : List String → Prop} {entries entries' : List (Tree × Tree)} (c : Comments)
      (h : VeiledEntries hidden entries entries') :
      VeiledTree hidden (.mapping c entries) (.mapping c entries')

inductive VeiledEntries :
    (List String → Prop) → List (Tree × Tree) → List (Tree × Tree) → Prop
  | nil {hidden : List String → Prop} : VeiledEntries hidden [] []
  | kept {hidden : List String → Prop} {rest rest' : List (Tree × Tree)} (entry : Tree × Tree)
      (h : VeiledEntries hidden rest rest') :
      VeiledEntries hidden (entry :: rest) (entry :: rest')
  | under {hidden : List String → Prop} {k v w : Tree} {key : String}
      {rest rest' : List (Tree × Tree)} (hkey : k.text? = some key)
      (hvalue : VeiledTree (fun path ↦ hidden (key :: path)) v w)
      (h : VeiledEntries hidden rest rest') :
      VeiledEntries hidden ((k, v) :: rest) ((k, w) :: rest')

end

variable {hidden : List String → Prop} {t u : Tree} {entries entries' : List (Tree × Tree)}

theorem VeiledEntries.lookup (h : VeiledEntries hidden entries entries') (key : String) :
    Option.Rel (VeiledTree fun path ↦ hidden (key :: path)) (lookupEntries key entries)
      (lookupEntries key entries') := by
  induction entries generalizing entries' with
  | nil =>
    cases h with
    | nil => exact .none
  | cons entry rest ih =>
    cases h with
    | @kept _ _ rest' _ hrest =>
      by_cases hentry : hasKey key entry = true
      · rw [lookupEntries_of_hasKey rest hentry, lookupEntries_of_hasKey rest' hentry]
        exact .some (.same _ _)
      · rw [lookupEntries_of_not_hasKey rest hentry, lookupEntries_of_not_hasKey rest' hentry]
        exact ih hrest
    | @under _ k v w key' _ rest' hkey hvalue hrest =>
      by_cases hentry : hasKey key (k, v) = true
      · obtain rfl := Option.some.inj (hkey.symm.trans (hasKey_iff.1 hentry))
        have hentry' : hasKey key' (k, w) = true := hentry
        rw [lookupEntries_of_hasKey rest hentry, lookupEntries_of_hasKey rest' hentry']
        exact .some hvalue
      · have hentry' : ¬hasKey key (k, w) = true := hentry
        rw [lookupEntries_of_not_hasKey rest hentry, lookupEntries_of_not_hasKey rest' hentry']
        exact ih hrest

theorem VeiledTree.valueAt? (h : VeiledTree hidden t u) (path : List String) :
    Option.Rel (Veiled (hidden path)) (Tree.valueAt? path t) (Tree.valueAt? path u) := by
  induction path generalizing hidden t u with
  | nil =>
    cases h with
    | same => exact rel_veiled_refl _ _
    | text hhidden hx hy => exact .some (.inr ⟨hhidden, hx, hy⟩)
    | mapping => exact .none
  | cons key path ih =>
    cases h with
    | same => exact rel_veiled_refl _ _
    | text => exact .none
    | @mapping _ entries entries' c hentries =>
      have hfound := hentries.lookup key
      change Option.Rel _ (lookupEntries key entries >>= Tree.valueAt? path)
        (lookupEntries key entries' >>= Tree.valueAt? path)
      generalize lookupEntries key entries = found, lookupEntries key entries' = found'
        at hfound ⊢
      cases hfound with
      | none => exact .none
      | some hvalue => exact ih hvalue

end Tree

/-! ## Stores that differ in tokens -/

namespace CommandLine

open LayeredConfig.Tree
open LayeredConfig.FileStore

/-- Where tokens are stored: at the top, in the local settings and in those of any host. -/
inductive TokenPath : List String → Prop
  | top : TokenPath ["token"]
  | localSettings : TokenPath [Scope.localSettings.key, "token"]
  | host (host : String) : TokenPath ["hosts", host, "token"]

/-- Two stores differ in nothing but what their tokens say. -/
structure SameButTokens (s s' : FileStore) : Prop where
  locations : s.locations = s'.locations
  environment : ∀ name, Option.Rel (Veiled (name ∈ Key.variableNames "token"))
    (s.environment.get? name) (s'.environment.get? name)
  document : ∃ t t', s.document.tree? = some t ∧ s'.document.tree? = some t' ∧
    VeiledTree TokenPath t t'

variable {s s' : FileStore} {t t' : Tree} {host key name : String}

theorem token_of_mem_known : ∀ k ∈ Key.known, ∀ name ∈ k.variableNames,
    name ∈ Key.variableNames "token" → k.canonical = "token" := by
  decide

/-- A variable of a token belongs to no other setting. -/
theorem token_of_mem_variableNames (h : name ∈ Key.variableNames key)
    (htoken : name ∈ Key.variableNames "token") : Key.canonical key = "token" := by
  rw [Key.variableNames] at h
  split at h
  · rename_i k hfind
    rw [Key.canonical, hfind]
    exact token_of_mem_known k (List.mem_of_find?_eq_some hfind) name h htoken
  · exact absurd h List.not_mem_nil

theorem TokenPath.getLast? {path : List String} (h : TokenPath path) :
    path.getLast? = some "token" := by
  cases h with
  | top => rfl
  | localSettings => rfl
  | host => rfl

/-- What is looked up in both stores is the same, or is a token on both sides. -/
theorem veiled_get (h : SameButTokens s s') (ht : s.document.Holds t) (ht' : s'.document.Holds t')
    (host key : String) :
    Veiled (Key.canonical key = "token") (s.get host key) (s'.get host key) := by
  obtain ⟨u, u', hu, hu', hsame⟩ := h.document
  obtain rfl := Option.some.inj (ht.tree?.symm.trans hu)
  obtain rfl := Option.some.inj (ht'.tree?.symm.trans hu')
  rw [get_eq, get_eq]
  have hstored (path : List String) (hpath : path.getLast? = some (Key.canonical key)) :
      Option.Rel (Veiled (Key.canonical key = "token")) (valueAt? path t) (valueAt? path t') :=
    rel_veiled_imp (hsame.valueAt? path)
      fun htoken ↦ Option.some.inj (hpath.symm.trans htoken.getLast?)
  have hvariables : List.Forall₂ (Option.Rel (Veiled (Key.canonical key = "token")))
      ((Key.variableNames (Key.canonical key)).map s.environment.get?)
      ((Key.variableNames (Key.canonical key)).map s'.environment.get?) := by
    rw [List.forall₂_map_left_iff, List.forall₂_map_right_iff, List.forall₂_same,
      Key.variableNames_canonical]
    exact fun name hname ↦
      rel_veiled_imp (h.environment name) (token_of_mem_variableNames hname)
  refine veiled_getD (rel_firstValue? (List.rel_append hvariables ?_)) _
  refine .cons ?_ (.cons ?_ (.cons ?_ .nil))
  · split
    · exact .none
    · rw [hostValue?_eq ht, hostValue?_eq ht']
      exact hstored _ rfl
  · rw [localValue?_eq ht, localValue?_eq ht']
    exact hstored _ rfl
  · rw [globalValue?_eq ht, globalValue?_eq ht']
    exact hstored _ rfl

/-! ## What is shown -/

theorem looksSecret_of_token :
    ∀ key ∈ Key.names, Key.canonical key = "token" → Secret.looksSecret key = true := by
  decide

theorem looksSecret_of_variable :
    ∀ name ∈ Key.variableNames "token", Secret.looksSecret name = true := by
  decide

theorem settingLines_redacted (h : SameButTokens s s') (ht : s.document.Holds t)
    (ht' : s'.document.Holds t') (host : String) :
    settingLines s host true = settingLines s' host true := by
  refine List.map_congr_left fun key hkey ↦ ?_
  rw [((veiled_get h ht ht' host key).imp (looksSecret_of_token key hkey)).display]

theorem variableLines_redacted (h : SameButTokens s s') {c c' : Context}
    (hc : c.environment = s.environment) (hc' : c'.environment = s'.environment) :
    c.variableLines true = c'.variableLines true := by
  refine List.filterMap_congr fun name _ ↦ ?_
  rw [hc, hc']
  have hvalue := rel_veiled_imp (h.environment name) (looksSecret_of_variable name)
  generalize s.environment.get? name = v, s'.environment.get? name = w at hvalue ⊢
  cases hvalue with
  | none => rfl
  | some hxy => exact congrArg (fun text ↦ some ("  " ++ name ++ " = " ++ text)) hxy.display

/-- Two stores, each loaded or wrapped and then used in any way, that differ in nothing but what
their tokens say: the list of settings and the summary of a run are the same for both when secrets
are hidden. -/
theorem redacted_same (hreached : s.Reached) (hreached' : s'.Reached) (h : SameButTokens s s') :
    (∀ host, runConfig s (.list host false) = runConfig s' (.list host false)) ∧
      (Context.mk s.locations s.environment (some (.ok s))).dump true =
        (Context.mk s'.locations s'.environment (some (.ok s'))).dump true := by
  obtain ⟨t, ht⟩ := hreached.holds
  obtain ⟨t', ht'⟩ := hreached'.holds
  constructor
  · intro host
    have hlines := settingLines_redacted h ht ht' host
    exact congrArg (fun lines ↦ (pure (Output.ofLines lines) : Work Output)) hlines
  · have hlines : (Context.mk s.locations s.environment (some (.ok s))).variableLines true =
        (Context.mk s'.locations s'.environment (some (.ok s'))).variableLines true :=
      variableLines_redacted h rfl rfl
    rw [Context.dump, Context.dump, hlines, h.locations]
    rfl

/-- A file with the token of one host. -/
def hostTree (token : String) : Tree :=
  .mapping {} [(newScalar "hosts",
    .mapping {} [(newScalar "a.example", .mapping {} [(newScalar "token", newScalar token)])])]

/-- The stores have different tokens in a variable and at a host. -/
theorem redacted_same_twoTokens :
    ∃ s s' : FileStore, s.Reached ∧ s'.Reached ∧ SameButTokens s s' ∧
      s.environment.get? "OAUTH_TOKEN" ≠ s'.environment.get? "OAUTH_TOKEN" ∧
      s.hostValue? "a.example" "token" ≠ s'.hostValue? "a.example" "token" ∧
      (∀ host, runConfig s (.list host false) = runConfig s' (.list host false)) ∧
      (Context.mk s.locations s.environment (some (.ok s))).dump true =
        (Context.mk s'.locations s'.environment (some (.ok s'))).dump true := by
  let store (d : Document) (token : String) : FileStore :=
    ⟨d, ⟨⟨"/cfg"⟩, ⟨"/repo"⟩⟩, ⟨[("OAUTH_TOKEN", token)]⟩⟩
  obtain ⟨d, hparse, htree, hvalue⟩ : ∃ d,
      Document.parse "hosts:\n  a.example:\n    token: x\n" = .ok d ∧
      d.tree? = some (hostTree "x") ∧
      (store d "a").hostValue? "a.example" "token" = some "x" :=
    ⟨_, by cbv, by cbv, by cbv⟩
  obtain ⟨d', hparse', htree', hvalue'⟩ : ∃ d,
      Document.parse "hosts:\n  a.example:\n    token: y\n" = .ok d ∧
      d.tree? = some (hostTree "y") ∧
      (store d "b").hostValue? "a.example" "token" = some "y" :=
    ⟨_, by cbv, by cbv, by cbv⟩
  have hreached : (store d "a").Reached := .wrap hparse _ _
  have hreached' : (store d' "b").Reached := .wrap hparse' _ _
  have htrees : VeiledTree TokenPath (hostTree "x") (hostTree "y") :=
    .mapping _ (.under rfl (.mapping _ (.under rfl (.mapping _ (.under rfl
      (.text (.host "a.example") (by decide) (by decide) _ _ _) .nil)) .nil)) .nil)
  have henvironment (name : String) : Option.Rel (Veiled (name ∈ Key.variableNames "token"))
      ((store d "a").environment.get? name) ((store d' "b").environment.get? name) := by
    by_cases hname : name = "OAUTH_TOKEN"
    · subst hname
      exact .some (.inr ⟨by decide, by decide, by decide⟩)
    · have hnone (token : String) : Table.get? ⟨[("OAUTH_TOKEN", token)]⟩ name = none := by
        simp [Table.get?, List.lookup_cons, beq_false_of_ne hname]
      rw [show (store d "a").environment.get? name = none from hnone "a",
        show (store d' "b").environment.get? name = none from hnone "b"]
      exact .none
  have hsame : SameButTokens (store d "a") (store d' "b") :=
    ⟨rfl, henvironment, hostTree "x", hostTree "y", htree, htree', htrees⟩
  refine ⟨store d "a", store d' "b", hreached, hreached', hsame, ?_, ?_,
    redacted_same hreached hreached' hsame⟩
  · change some "a" ≠ some "b"
    decide
  · rw [hvalue, hvalue']
    decide

end CommandLine

end LayeredConfig
