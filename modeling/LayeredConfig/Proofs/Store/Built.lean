import LayeredConfig.Proofs.Document.Built
import LayeredConfig.Proofs.Store.Calls
import LayeredConfig.Proofs.Store.Conversion

/-!
# Documents that were built by calls

A store that begins with the document of a first run, or with an empty one, and is given texts to
store holds a built tree whatever becomes of the calls: they may be refused, and the file of a
scope may fail to be written. What is written for its document is read back as the same document,
styles and comments included, unless an empty key or name was stored.
-/

namespace LayeredConfig

open LayeredConfig.Tree
open LayeredConfig.Document
open LayeredConfig.FileProgram

/-! ## Documents to begin with -/

theorem Tree.built_empty {allowed : Part → String → Prop} : Built allowed (.mapping {} []) :=
  .mapping (List.forall_mem_nil _) (List.forall_mem_nil _)

namespace Defaults

variable {allowed : Part → String → Prop}

/-- All texts of the document of a first run are allowed. -/
structure Allowed (allowed : Part → String → Prop) : Prop where
  seed : ∀ seed ∈ globals ++ host,
    allowed .comment seed.comment ∧ allowed .key seed.key ∧ allowed .value seed.text
  hostComment : allowed .comment hostComment
  hosts : allowed .key "hosts"
  hostname : allowed .key defaultHostname

theorem builtKey_commented {text : String} {comments : List String}
    (hcomments : ∀ line ∈ comments, IsCommentLine line.toList)
    (hcommentsAllowed : ∀ line ∈ comments, allowed .comment line) (hallowed : allowed .key text)
    (hplain : Scalar.styleFor text.toList .plain = .plain) :
    BuiltKey allowed (commented text comments) := by
  have hkey := BuiltKey.mk hcomments hcommentsAllowed hallowed
  rwa [hplain] at hkey

theorem built_entry (h : Allowed allowed) {seed : Seed} (hseed : seed ∈ globals ++ host) :
    BuiltKey allowed seed.entry.1 ∧ Built allowed seed.entry.2 := by
  have hplain : ∀ seed ∈ globals ++ host, Scalar.styleFor seed.key.toList .plain = .plain ∧
      Scalar.styleFor seed.text.toList .plain = .plain := by
    decide
  obtain ⟨hkey, htext⟩ := hplain seed hseed
  obtain ⟨hcomment, hkeyAllowed, htextAllowed⟩ := h.seed seed hseed
  refine ⟨builtKey_commented (List.forall_mem_singleton.2 ?_) (List.forall_mem_singleton.2 hcomment)
    hkeyAllowed hkey, .scalar htext htextAllowed⟩
  exact isCommentLine_comment _ (List.mem_cons_of_mem _ (List.mem_map_of_mem hseed))

/-- The document of a first run is built. -/
theorem built_tree (h : Allowed allowed) : Built allowed tree := by
  have hseeds (seeds : List Seed) (hall : ∀ seed ∈ seeds, seed ∈ globals ++ host) :
      ∀ entry ∈ seeds.map Seed.entry, BuiltKey allowed entry.1 ∧ Built allowed entry.2 := by
    intro entry hmem
    obtain ⟨seed, hseed, rfl⟩ := List.mem_map.1 hmem
    exact built_entry h (hall seed hseed)
  have hglobals := hseeds globals fun _ hmem ↦ List.mem_append_left _ hmem
  have hhost := hseeds host fun _ hmem ↦ List.mem_append_right _ hmem
  have hname : BuiltKey allowed (commented defaultHostname []) :=
    builtKey_commented (List.forall_mem_nil _) (List.forall_mem_nil _) h.hostname (by decide)
  have hhosts : BuiltKey allowed (commented "hosts" [hostComment]) :=
    builtKey_commented (List.forall_mem_singleton.2 (isCommentLine_comment _ List.mem_cons_self))
      (List.forall_mem_singleton.2 h.hostComment) h.hosts (by decide)
  have hvalue : Built allowed
      (.mapping {} [(commented defaultHostname [], .mapping {} (host.map Seed.entry))]) := by
    refine .mapping (List.forall_mem_singleton.2 hname) (List.forall_mem_singleton.2 ?_)
    exact .mapping (fun entry hmem ↦ (hhost entry hmem).1) fun entry hmem ↦ (hhost entry hmem).2
  refine .mapping (List.forall_mem_append.2 ⟨fun entry hmem ↦ (hglobals entry hmem).1, ?_⟩)
    (List.forall_mem_append.2 ⟨fun entry hmem ↦ (hglobals entry hmem).2, ?_⟩)
  · exact List.forall_mem_singleton.2 hhosts
  · exact List.forall_mem_singleton.2 hvalue

end Defaults

namespace FileStore

variable {s s' : FileStore} {t t' : Tree} {call : Call} {result : Result} {findShell : ShellFinder}
  {allowed : Part → String → Prop}

/-! ## Calls that store a text -/

/-- The key or the name under which a call stores a text. -/
def Call.storedName? : Call → Option String
  | set _ key _ => some key
  | scopeSet _ name _ => some name
  | unsetHost _ => none
  | scopeDelete _ _ => none

/-- The keys on the way to the text that a call stores. -/
def Call.keyPath : Call → List String
  | set host key _ =>
    (settingPath host (Key.canonical key)).1 :: (settingPath host (Key.canonical key)).2
  | scopeSet scope name _ => [scope.key, scope.normalize name]
  | unsetHost _ => []
  | scopeDelete _ _ => []

/-- Calls one after the other, whatever they answer. -/
inductive Answered (findShell : ShellFinder) : FileStore → List Call → FileStore → Prop
  | nil (s : FileStore) : Answered findShell s [] s
  | cons {s s' s'' : FileStore} {call : Call} {calls : List Call} {result : Result}
      (hyields : (s.perform findShell call.operation).Yields (result, s'))
      (h : Answered findShell s' calls s'') : Answered findShell s (call :: calls) s''

/-- A text that was stored stays when its file cannot be written. -/
theorem applied_or_refused (h : s.document.Holds t) (hstores : call.storedName? ≠ none)
    (hyields : (s.perform findShell call.operation).Yields (result, s')) :
    ∃ t', s'.document.Holds t' ∧ (call.Applied t t' ∨ Refused t t') := by
  cases call with
  | unsetHost => exact absurd rfl hstores
  | scopeDelete => exact absurd rfl hstores
  | set host key value =>
    rw [Call.operation, perform] at hyields
    cases hset : s.set host key value with
    | mk outcome s₁ =>
      rw [hset] at hyields
      obtain ⟨-, rfl⟩ := Prod.mk.inj (yields_pure.1 hyields)
      cases outcome with
      | error e =>
        obtain rfl := eq_of_set_error hset
        exact ⟨t, h, .inr (.kept t)⟩
      | ok =>
        obtain ⟨t', hstore, ht', -, -⟩ := holds_set h hset
        exact ⟨t', ht', .inl (.set hstore)⟩
  | scopeSet scope name value =>
    rw [Call.operation, perform] at hyields
    split at hyields
    · obtain ⟨-, rfl⟩ := Prod.mk.inj (yields_pure.1 hyields)
      exact ⟨t, h, .inr (.kept t)⟩
    · rename_i s₁ map hopen
      rcases (scopeOutcome_of_yields hyields).eq_or_leaves with rfl | ⟨document, hleaves, rfl⟩
      · obtain ⟨t', hrefused, ht', -⟩ := refused_of_open h hopen
        exact ⟨t', ht', .inr hrefused⟩
      · cases hleaves with
        | set htext =>
          obtain ⟨u, hopened, -, -⟩ := opened_of_openScope h hopen
          obtain ⟨u', t', hu', hupdate, ht'⟩ := hopened.setText htext
          exact ⟨t', ht', .inl (.scopeSet (storeAt_of_inside hopened.opens hu' hupdate))⟩

/-! ## Built trees -/

theorem built_applied (h : Built allowed t) (hpath : ∀ name ∈ call.keyPath, allowed .key name)
    (htexts : ∀ text, allowed .value text) (hstores : call.storedName? ≠ none)
    (happlied : call.Applied t t') : t'.isMapping = true ∧ Built allowed t' := by
  cases happlied with
  | set hstore => exact ⟨isMapping_storeAt hstore, h.storeAt hpath (htexts _) hstore⟩
  | scopeSet hstore => exact ⟨isMapping_storeAt hstore, h.storeAt hpath (htexts _) hstore⟩
  | unsetNone => exact absurd rfl hstores
  | unsetHost => exact absurd rfl hstores
  | scopeDelete => exact absurd rfl hstores

theorem built_refused (hmap : t.isMapping = true) (h : Built allowed t)
    (hscopes : ∀ scope : Scope, allowed .key scope.key) (hrefused : Refused t t') :
    t'.isMapping = true ∧ Built allowed t' := by
  cases hrefused with
  | kept => exact ⟨hmap, h⟩
  | opened scope hopen =>
    refine ⟨isMapping_update hopen, h.update (hscopes scope) (builds_inside fun u v hu hv ↦ ?_) hopen⟩
    exact Except.ok.inj hv ▸ hu

/-- Calls that store texts below allowed keys keep the tree of a store built. -/
theorem built_of_answered {calls : List Call} (hanswered : Answered findShell s calls s')
    (hstores : ∀ call ∈ calls, call.storedName? ≠ none)
    (hpaths : ∀ call ∈ calls, ∀ name ∈ call.keyPath, allowed .key name)
    (htexts : ∀ text, allowed .value text) (hscopes : ∀ scope : Scope, allowed .key scope.key)
    (h : s.document.Holds t)
    (hmap : t.isMapping = true) (hbuilt : Built allowed t) :
    ∃ t', s'.document.Holds t' ∧ t'.isMapping = true ∧ Built allowed t' := by
  induction hanswered generalizing t with
  | nil s => exact ⟨t, h, hmap, hbuilt⟩
  | cons hyields _ ih =>
    obtain ⟨hstore, hstores⟩ := List.forall_mem_cons.1 hstores
    obtain ⟨hpath, hpaths⟩ := List.forall_mem_cons.1 hpaths
    obtain ⟨t₁, ht₁, happlied | hrefused⟩ := applied_or_refused h hstore hyields
    · obtain ⟨hmap₁, hbuilt₁⟩ := built_applied hbuilt hpath htexts hstore happlied
      exact ih hstores hpaths ht₁ hmap₁ hbuilt₁
    · obtain ⟨hmap₁, hbuilt₁⟩ := built_refused hmap hbuilt hscopes hrefused
      exact ih hstores hpaths ht₁ hmap₁ hbuilt₁

/-- Below a name that is not empty no key on the way is empty. -/
theorem keyPath_ne_empty (hname : call.storedName? ≠ some "") : ∀ name ∈ call.keyPath, name ≠ "" := by
  have hcanonical (key : String) (hkey : key ≠ "") : Key.canonical key ≠ "" := by
    rw [Key.canonical]
    split
    · rename_i k hfound
      have hknown : ∀ k ∈ Key.known, k.canonical ≠ "" := by decide
      exact hknown k (List.mem_of_find?_eq_some hfound)
    · exact hkey
  cases call with
  | set host key value =>
    have hkey := hcanonical key fun heq ↦ hname (congrArg some heq)
    rw [Call.keyPath, settingPath]
    split
    · exact List.forall_mem_singleton.2 hkey
    · rename_i hhost
      have hhost : host ≠ "" := fun heq ↦ hhost (String.isEmpty_iff.2 heq)
      simp [hkey, hhost]
  | scopeSet scope name value =>
    have hne : name ≠ "" := fun heq ↦ hname (congrArg some heq)
    cases scope with
    | aliases => simp [Call.keyPath, Scope.key, Scope.normalize, hne]
    | localSettings => simp [Call.keyPath, Scope.key, Scope.normalize, hcanonical name hne]
  | unsetHost => exact List.forall_mem_nil _
  | scopeDelete => exact List.forall_mem_nil _

/-- No key is empty. -/
def Named (part : Part) (text : String) : Prop :=
  part = .key → text ≠ ""

theorem allowed_named : Defaults.Allowed Named where
  seed := by
    have hkeys : ∀ seed ∈ Defaults.globals ++ Defaults.host, seed.key ≠ "" := by decide
    exact fun seed hseed ↦ ⟨nofun, fun _ ↦ hkeys seed hseed, nofun⟩
  hostComment := nofun
  hosts := fun _ ↦ by decide
  hostname := fun _ ↦ by decide

theorem built_start (h : s.document = Defaults.document ∨ s.document = Document.empty) :
    ∃ t, s.document.Holds t ∧ t.isMapping = true ∧ Built Named t := by
  rcases h with h | h
  · rw [h]
    exact ⟨_, hangs_ofFile Defaults.tree, rfl, Defaults.built_tree allowed_named⟩
  · rw [h]
    exact ⟨_, holds_empty, rfl, built_empty⟩

/-! ## Writing and reading -/

/-- A store begins with the document of a first run or an empty one, and any texts are given to
it. What is written for its document is read back as the same document exactly when none of its
keys is empty, as when no call names an empty key. -/
theorem parse_encode_answered
    (hstart : s.document = Defaults.document ∨ s.document = Document.empty) {calls : List Call}
    (hstores : ∀ call ∈ calls, call.storedName? ≠ none)
    (hanswered : Answered findShell s calls s') :
    ∃ t d, s'.document.tree? = some t ∧
      parse (s'.document.encode s'.document.root []) = .ok d ∧
      (d.same s'.document = true ↔ "" ∉ t.allKeys) ∧
      ((∀ call ∈ calls, call.storedName? ≠ some "") → d.same s'.document = true) := by
  obtain ⟨start, hholds, hmap, hbuilt⟩ := built_start hstart
  have hany : Built (fun _ _ ↦ True) start := hbuilt.mono fun _ _ _ ↦ trivial
  obtain ⟨t, ht, hmap', hbuilt'⟩ := built_of_answered hanswered hstores
    (fun _ _ _ _ ↦ trivial) (fun _ ↦ trivial) (fun _ ↦ trivial) hholds hmap hany
  have htree := ht.tree?
  have hsame : (ofFile t.rereadFile).same s'.document = true ↔ "" ∉ t.allKeys := by
    rw [Document.same, tree?_ofFile, htree, beq_iff_eq, Option.some.injEq, rereadFile_eq_self_iff hbuilt']
  refine ⟨t, ofFile t.rereadFile, htree, ?_, hsame, fun hnames ↦ ?_⟩
  · rw [encode_of_treeAt? htree]
    exact parse_encode (hbuilt'.isFile hmap')
  · obtain ⟨t', ht', -, hnonempty⟩ := built_of_answered hanswered hstores
      (fun call hmem name hname _ ↦ keyPath_ne_empty (hnames call hmem) name hname) (fun _ ↦ nofun)
      (fun scope _ ↦ by cases scope <;> decide) hholds hmap hbuilt
    obtain rfl := Option.some.inj (htree.symm.trans ht'.tree?)
    exact hsame.2 fun hmem ↦ hnonempty.allowed_of_mem "" hmem rfl rfl

theorem parse_encode_answered_quoted :
    ∃ s' d, Answered (pure (.ok "sh")) ⟨Document.empty, plainLocations, {}⟩
        [.scopeSet .aliases "co" "y", .set "" "aliases" "x", .set "- a: b" "gitlab_token" " # c\n"] s' ∧
      parse (s'.document.encode s'.document.root []) = .ok d ∧ d.same s'.document = true := by
  obtain ⟨s₁, map, hopen, d₁, entry, htext, ⟨e, hrefused⟩, s₂, hset⟩ :
      ∃ s₁ map, FileStore.openScope ⟨Document.empty, plainLocations, {}⟩ .aliases = .ok (s₁, map) ∧
        ∃ d₁ entry, s₁.document.setText map "co" "y" = .ok (d₁, entry) ∧
          (∃ e, FileStore.set { s₁ with document := d₁ } "" "aliases" "x" =
            (.error e, { s₁ with document := d₁ })) ∧
          ∃ s₂, FileStore.set { s₁ with document := d₁ } "- a: b" "gitlab_token" " # c\n" =
            (.ok (), s₂) :=
    ⟨_, _, by cbv, _, _, by cbv, ⟨_, by cbv⟩, _, by cbv⟩
  have halias : (FileStore.perform ⟨Document.empty, plainLocations, {}⟩ (pure (.ok "sh"))
      (Call.scopeSet .aliases "co" "y").operation).Yields (.ok .done, { s₁ with document := d₁ }) :=
    yields_scopeSet hopen htext
  have hrefused' : (FileStore.perform { s₁ with document := d₁ } (pure (.ok "sh"))
      (Call.set "" "aliases" "x").operation).Yields
        (.error (.config (.shape e)), { s₁ with document := d₁ }) := by
    rw [Call.operation, perform, hrefused]
    exact .done _
  have htoken : (FileStore.perform { s₁ with document := d₁ } (pure (.ok "sh"))
      (Call.set "- a: b" "gitlab_token" " # c\n").operation).Yields (.ok .done, s₂) := by
    rw [Call.operation, perform, hset]
    exact .done _
  have hanswered := Answered.cons halias (.cons hrefused' (.cons htoken (.nil _)))
  obtain ⟨t, d, -, hparse, -, hsame⟩ := parse_encode_answered (.inr rfl) (by decide) hanswered
  exact ⟨s₂, d, hanswered, hparse, hsame (by decide)⟩

/-- A value under an empty key is not read back with the style that the key was made with. -/
theorem empty_key_changes_style :
    ¬ ∀ (s s' : FileStore) (calls : List Call), s.document = Document.empty →
      (∀ call ∈ calls, call.storedName? ≠ none) → Answered (pure (.ok "sh")) s calls s' →
      ∃ d, parse (s'.document.encode s'.document.root []) = .ok d ∧ d.same s'.document = true := by
  intro h
  obtain ⟨d, hparse, hsame⟩ := h ⟨Document.empty, plainLocations, {}⟩
    ⟨⟨#[⟨.mapping [(⟨1⟩, ⟨2⟩)], {}⟩, ⟨.scalar "" .plain, {}⟩, ⟨.scalar "v" .plain, {}⟩], ⟨0⟩⟩,
      plainLocations, {}⟩ [.set "" "" "v"] rfl (by decide) (.cons (.done _) (.nil _))
  obtain ⟨d', hparse', hdiffers⟩ : ∃ d', parse "\"\": v\n" = .ok d' ∧
      d'.tree? = some (.mapping {} [(.scalar {} "" .doubleQuoted, .scalar {} "v" .plain)]) :=
    ⟨_, by cbv, by cbv⟩
  obtain rfl := Except.ok.inj (hparse'.symm.trans hparse)
  rw [Document.same, hdiffers] at hsame
  exact absurd hsame (by decide)

end FileStore

end LayeredConfig
