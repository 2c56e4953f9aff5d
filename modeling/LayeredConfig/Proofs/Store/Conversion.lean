import LayeredConfig.Proofs.Store.Reload

/-!
# The settings of an old file in the new document

The settings of an old file are stored one by one, in the order of the file, in the document of a
first run. What stands at the end for a host, or at the top, is the last text that the file has for
the key in any of its spellings, and the value of the first run where the file has none.
-/

namespace LayeredConfig

open LayeredConfig.Tree
open LayeredConfig.Document

/-! ## The document of a first run -/

namespace Defaults

/-- A text of one line that starts with a number sign and does not end in white space. -/
theorem isCommentLine_ofList {chars : List Char} (honeLine : '\n' ∉ chars)
    (hends : chars.getLast?.all (!Text.isBlank ·) = true) (hmarked : chars.head? = some '#') :
    IsCommentLine (String.ofList chars).toList := by
  rw [String.toList_ofList]
  simp only [Option.all_eq_true, Bool.not_eq_true'] at hends
  refine ⟨⟨honeLine, hends⟩, fun c hc ↦ ?_⟩
  exact (Option.some.inj (hmarked.symm.trans hc)).symm

set_option maxRecDepth 2000 in
theorem isCommentLine_comment :
    ∀ text ∈ hostComment :: (globals ++ host).map Seed.comment, IsCommentLine text.toList := by
  simp only [globals, host, List.map_cons, List.map_nil, List.cons_append, List.nil_append,
    List.forall_mem_cons]
  refine ⟨?_, ?_, ?_, ?_, ?_, ?_, ?_, ?_, ?_, List.forall_mem_nil _⟩
  all_goals exact isCommentLine_ofList (by decide +kernel) (by decide +kernel) rfl

theorem inner_comments {comments : List String}
    (h : ∀ text ∈ comments, text ∈ hostComment :: (globals ++ host).map Seed.comment) :
    Comments.Inner ⟨comments, none, []⟩ :=
  Comments.inner_mk (fun text hmem ↦ isCommentLine_comment text (h text hmem)) fun _ hmem ↦ by cases hmem

/-- A list of seeds can be written as the entries of a mapping. -/
theorem writable_entry {seed : Seed} (h : seed ∈ globals ++ host) :
    IsKey seed.entry.1 ∧ Writable seed.entry.2 := by
  refine ⟨.scalar (inner_comments fun text hmem ↦ ?_), .scalar (inner_comments (List.forall_mem_nil _))⟩
  obtain rfl := List.mem_singleton.1 hmem
  exact List.mem_cons_of_mem _ (List.mem_map_of_mem h)

theorem isFile_tree : tree.IsFile := by
  have hentries (seeds : List Seed) (hseeds : ∀ seed ∈ seeds, seed ∈ globals ++ host) :
      ∀ entry ∈ seeds.map Seed.entry, IsKey entry.1 ∧ Writable entry.2 := by
    intro entry hmem
    obtain ⟨seed, hseed, rfl⟩ := List.mem_map.1 hmem
    exact writable_entry (hseeds seed hseed)
  have hglobals := hentries globals fun _ hmem ↦ List.mem_append_left _ hmem
  have hhost := hentries host fun _ hmem ↦ List.mem_append_right _ hmem
  have hhosts : Writable (.mapping {} [(commented defaultHostname [], .mapping {} (host.map Seed.entry))]) := by
    refine .mapping Comments.inner_none ?_ ?_
    · rintro entry hmem
      obtain rfl := List.mem_singleton.1 hmem
      exact .scalar (inner_comments (List.forall_mem_nil _))
    · rintro entry hmem
      obtain rfl := List.mem_singleton.1 hmem
      exact .mapping Comments.inner_none (fun entry hmem ↦ (hhost entry hmem).1)
        fun entry hmem ↦ (hhost entry hmem).2
  have hall : ∀ entry ∈ globals.map Seed.entry ++ [(commented "hosts" [hostComment],
      .mapping {} [(commented defaultHostname [], .mapping {} (host.map Seed.entry))])],
      IsKey entry.1 ∧ Writable entry.2 := by
    intro entry hmem
    rcases List.mem_append.1 hmem with hmem | hmem
    · exact hglobals entry hmem
    · obtain rfl := List.mem_singleton.1 hmem
      refine ⟨.scalar (inner_comments fun text hmem ↦ ?_), hhosts⟩
      obtain rfl := List.mem_singleton.1 hmem
      exact List.mem_cons_self
  exact .mapping Comments.inner_none.toLegible (fun entry hmem ↦ (hall entry hmem).1)
    fun entry hmem ↦ (hall entry hmem).2

end Defaults

variable {t t' : Tree} {s s' : FileStore} {host host' key key' value : String}

/-! ## One setting -/

namespace FileStore

theorem locations_of_set (h : s.set host key value = (.ok (), s')) : s'.locations = s.locations := by
  unfold set at h
  split at h
  · obtain ⟨d, entry, -, rfl⟩ := setAt_eq_ok h
    rfl
  · split at h
    · cases h
    · rename_i map s₁ hopen
      obtain ⟨d, hosts, d', -, -, rfl⟩ := openHost_eq_ok hopen
      obtain ⟨d, entry, -, rfl⟩ := setAt_eq_ok h
      rfl

/-- The text that a tree holds for a host, or at the top when no host is named. -/
def settingAt? (host key : String) (t : Tree) : Option String :=
  valueAt? ((settingPath host key).1 :: (settingPath host key).2) t

/-- The key of the hosts is not free for a global setting. -/
def HasHosts (t : Tree) : Prop :=
  ∃ hosts, t.lookup? "hosts" = some hosts ∧ hosts.isMapping = true

theorem settingAt?_hosts (h : HasHosts t) : settingAt? "" "hosts" t = none := by
  obtain ⟨hosts, hlookup, hmap⟩ := h
  rw [settingAt?, settingPath_of_isEmpty rfl, valueAt?, hlookup]
  cases hosts with
  | mapping => rfl
  | scalar => cases hmap
  | sequence => cases hmap

theorem hasHosts_storeSetting (h : HasHosts t) (hstore : storeSetting host key value t = .ok t') :
    HasHosts t' := by
  obtain ⟨hosts, hlookup, hmap⟩ := h
  by_cases hhost : host.isEmpty = true
  · rw [storeSetting, settingPath_of_isEmpty hhost, storeAt] at hstore
    by_cases hkey : key = "hosts"
    · subst hkey
      obtain ⟨v, hv, -⟩ := lookup?_update hstore
      rw [hlookup] at hv
      cases hosts with
      | mapping => cases hv
      | scalar => cases hmap
      | sequence => cases hmap
    · exact ⟨hosts, by rw [lookup?_update_of_ne hstore (Ne.symm hkey), hlookup], hmap⟩
  · rw [storeSetting, settingPath_of_not_isEmpty hhost] at hstore
    obtain ⟨v, hv, hlookup'⟩ := lookup?_update hstore
    obtain ⟨u, -, hu, -⟩ := inside_eq_ok hv
    exact ⟨v, hlookup', isMapping_storeAt hu⟩

/-- A path of a setting is on the way to another one only if it is the key of the hosts. -/
theorem settingPath_prefix (h : (settingPath host' key').1 :: (settingPath host' key').2 <+:
    (settingPath host key).1 :: (settingPath host key).2) :
    host' = host ∧ key' = key ∨ host' = "" ∧ key' = "hosts" := by
  by_cases hhost' : host'.isEmpty = true
  · have hempty' := String.isEmpty_iff.1 hhost'
    rw [settingPath_of_isEmpty hhost'] at h
    by_cases hhost : host.isEmpty = true
    · rw [settingPath_of_isEmpty hhost] at h
      obtain ⟨rfl, -⟩ := List.cons_prefix_cons.1 h
      exact .inl ⟨hempty'.trans (String.isEmpty_iff.1 hhost).symm, rfl⟩
    · rw [settingPath_of_not_isEmpty hhost] at h
      obtain ⟨rfl, -⟩ := List.cons_prefix_cons.1 h
      exact .inr ⟨hempty', rfl⟩
  · rw [settingPath_of_not_isEmpty hhost'] at h
    by_cases hhost : host.isEmpty = true
    · rw [settingPath_of_isEmpty hhost] at h
      cases List.prefix_nil.1 (List.cons_prefix_cons.1 h).2
    · rw [settingPath_of_not_isEmpty hhost] at h
      obtain ⟨-, hprefix⟩ := List.cons_prefix_cons.1 h
      obtain ⟨hsame, hprefix⟩ := List.cons_prefix_cons.1 hprefix
      exact .inl ⟨hsame, (List.cons_prefix_cons.1 hprefix).1⟩

theorem settingAt?_storeSetting (h : HasHosts t) (hstore : storeSetting host key value t = .ok t')
    (host' key' : String) : settingAt? host' key' t' =
      if host' = host ∧ key' = key then some value else settingAt? host' key' t := by
  split
  · rename_i hsame
    obtain ⟨rfl, rfl⟩ := hsame
    exact valueAt?_storeAt hstore
  · rename_i hother
    by_cases hprefix : (settingPath host' key').1 :: (settingPath host' key').2 <+:
        (settingPath host key).1 :: (settingPath host key).2
    · rcases settingPath_prefix hprefix with hsame | ⟨rfl, rfl⟩
      · exact absurd hsame hother
      · rw [settingAt?_hosts h, settingAt?_hosts (hasHosts_storeSetting h hstore)]
    · exact valueAt?_storeAt_of_not_prefix hstore hprefix

end FileStore

/-! ## All settings of an old file -/

namespace Legacy

open FileStore

/-- The text that comes last under a spelling of a key. -/
def lastText? (settings : List (String × String)) (key : String) : Option String :=
  (settings.findRev? fun setting ↦ Key.canonical setting.1 = key).map Prod.snd

/-- The texts with texts for names in a mapping. -/
def namedTexts (entries : List (Yaml.Value × Yaml.Value)) : List (String × String) :=
  entries.filterMap fun (key, value) ↦
    match key.string?, value.scalarText? with
    | some key, some text => some (key, text)
    | _, _ => none

/-- The settings of a list, which are those of the mapping at its head. -/
def listed : Yaml.Value → List (String × String)
  | .sequence (first :: _) =>
    match first.mapping? with
    | some named => namedTexts named
    | none => []
  | _ => []

/-- The settings of the list under the name of a host. -/
def hostSettings (settings : List (String × Yaml.Value)) (host : String) : List (String × String) :=
  settings.flatMap fun (name, value) ↦ if name = host then listed value else []

/-- The scalars at the top level. -/
def topSettings (settings : List (String × Yaml.Value)) : List (String × String) :=
  settings.filterMap fun (name, value) ↦ value.scalarText?.map fun text ↦ (name, text)

variable {settings : List (String × Yaml.Value)} {assigned rest : List Assignment}

theorem lastText?_append (pairs rest : List (String × String)) (key : String) :
    lastText? (pairs ++ rest) key = (lastText? rest key).or (lastText? pairs key) := by
  rw [lastText?, lastText?, lastText?, List.findRev?_eq_find?_reverse,
    List.findRev?_eq_find?_reverse, List.findRev?_eq_find?_reverse, List.reverse_append,
    List.find?_append, Option.map_or]

theorem lastText?_singleton (name text key : String) :
    lastText? [(name, text)] key = if Key.canonical name = key then some text else none := by
  rw [lastText?, List.findRev?_eq_find?_reverse, List.reverse_singleton, List.find?_cons]
  by_cases hkey : Key.canonical name = key
  · rw [decide_eq_true hkey, if_pos hkey]
    rfl
  · rw [decide_eq_false hkey, if_neg hkey]
    rfl

theorem lastText?_cons (name text : String) (pairs : List (String × String)) (key : String) :
    lastText? ((name, text) :: pairs) key =
      (lastText? pairs key).or (if Key.canonical name = key then some text else none) := by
  have happend := lastText?_append [(name, text)] pairs key
  rw [List.singleton_append, lastText?_singleton] at happend
  exact happend

/-! ## Stored settings -/

/-- What is to be stored for a host, or at the top. -/
def assignedTo (host : String) (assigned : List Assignment) : List (String × String) :=
  (assigned.filter (·.host = host)).map fun a ↦ (a.key, a.text)

theorem assignedTo_append (host : String) (assigned rest : List Assignment) :
    assignedTo host (assigned ++ rest) = assignedTo host assigned ++ assignedTo host rest := by
  rw [assignedTo, assignedTo, assignedTo, List.filter_append, List.map_append]

theorem assignedTo_cons_self (a : Assignment) (assigned : List Assignment) :
    assignedTo a.host (a :: assigned) = (a.key, a.text) :: assignedTo a.host assigned := by
  rw [assignedTo, assignedTo, List.filter_cons, if_pos (decide_eq_true rfl), List.map_cons]

theorem assignedTo_cons_of_ne {a : Assignment} (h : a.host ≠ host) (assigned : List Assignment) :
    assignedTo host (a :: assigned) = assignedTo host assigned := by
  rw [assignedTo, assignedTo, List.filter_cons_of_neg]
  exact fun heq ↦ h (of_decide_eq_true heq)

theorem store_cons_eq_ok {a : Assignment} (h : store s (a :: assigned) = .ok s') :
    ∃ s₁, s.set a.host a.key a.text = (.ok (), s₁) ∧ store s₁ assigned = .ok s' := by
  rw [store] at h
  split at h
  · cases h
  · rename_i s₁ hset
    exact ⟨s₁, hset, h⟩

/-- What holds of a store behind one setting and goes on to hold, holds behind all of them. -/
theorem store_induction {motive : FileStore → Prop}
    (hset : ∀ s s' host key value, motive s → s.set host key value = (.ok (), s') → motive s')
    (hs : motive s) (h : store s assigned = .ok s') : motive s' := by
  induction assigned generalizing s with
  | nil => exact Except.ok.inj h ▸ hs
  | cons a assigned ih =>
    obtain ⟨s₁, hfirst, hrest⟩ := store_cons_eq_ok h
    exact ih (hset s s₁ _ _ _ hs hfirst) hrest

/-- Behind all settings of an old file, each host has what came last for it. -/
theorem settingAt?_store (ht : s.document.Holds t) (hhosts : HasHosts t)
    (h : store s assigned = .ok s') :
    ∃ t', s'.document.Holds t' ∧ ∀ host key, settingAt? host key t' =
      (lastText? (assignedTo host assigned) key).or (settingAt? host key t) := by
  induction assigned generalizing s t with
  | nil =>
    obtain rfl := Except.ok.inj h
    exact ⟨t, ht, fun _ _ ↦ rfl⟩
  | cons a assigned ih =>
    obtain ⟨s₁, hset, hrest⟩ := store_cons_eq_ok h
    obtain ⟨t₁, hstore, ht₁, -⟩ := holds_set ht hset
    obtain ⟨t', ht', hlast⟩ := ih ht₁ (hasHosts_storeSetting hhosts hstore) hrest
    refine ⟨t', ht', fun host key ↦ ?_⟩
    rw [hlast, settingAt?_storeSetting hhosts hstore]
    by_cases hhost : host = a.host
    · subst hhost
      rw [assignedTo_cons_self, lastText?_cons, Option.or_assoc]
      congr 1
      by_cases hkey : key = Key.canonical a.key
      · rw [if_pos ⟨rfl, hkey⟩, if_pos hkey.symm, Option.some_or]
      · rw [if_neg fun hsame ↦ hkey hsame.2, if_neg (Ne.symm hkey), Option.none_or]
    · rw [assignedTo_cons_of_ne (Ne.symm hhost), if_neg fun hsame ↦ hhost hsame.1]

/-! ## What an old file assigns -/

variable {name : String} {content : Yaml.Value}

theorem hostAssignments_eq (name : String) (named : List (Yaml.Value × Yaml.Value)) :
    hostAssignments name named = (namedTexts named).map fun (key, text) ↦ ⟨name, key, text⟩ := by
  rw [hostAssignments, namedTexts, List.map_filterMap]
  congr 1
  funext (key, value)
  dsimp only
  cases key.string? with
  | none => rfl
  | some key =>
    cases value.scalarText? with
    | none => rfl
    | some text => rfl

theorem assignedTo_hostAssignments (host name : String) (named : List (Yaml.Value × Yaml.Value)) :
    assignedTo host (hostAssignments name named) = if name = host then namedTexts named else [] := by
  rw [hostAssignments_eq, assignedTo]
  split
  · rename_i hname
    rw [List.filter_eq_self.2, List.map_map]
    · exact List.map_id _
    · intro a hmem
      obtain ⟨pair, -, rfl⟩ := List.mem_map.1 hmem
      exact decide_eq_true hname
  · rename_i hname
    rw [List.filter_eq_nil_iff.2, List.map_nil]
    intro a hmem
    obtain ⟨pair, -, rfl⟩ := List.mem_map.1 hmem
    exact fun heq ↦ hname (of_decide_eq_true heq)

/-- The mapping at the head of a list is what counts. -/
theorem assignments_sequence (name : String) (items : List Yaml.Value) :
    ∃ named, assignments name (.sequence items) = hostAssignments name named ∧
      listed (.sequence items) = namedTexts named := by
  cases items with
  | nil => exact ⟨[], rfl, rfl⟩
  | cons first rest =>
    rw [assignments, List.head?_cons, Option.bind_eq_bind, Option.bind_some, listed]
    cases first.mapping? with
    | none => exact ⟨[], rfl, rfl⟩
    | some named => exact ⟨named, rfl, rfl⟩

/-- What is no list stands at the top if it has a text. -/
theorem assignments_of_not_sequence (h : ∀ items, content ≠ .sequence items) (name : String) :
    assignments name content = (content.scalarText?.map fun text ↦ ⟨"", name, text⟩).toList ∧
      listed content = [] := by
  cases content with
  | sequence items => exact absurd rfl (h items)
  | bool value =>
    refine ⟨?_, rfl⟩
    cases value with
    | true => rfl
    | false => rfl
  | _ => exact ⟨rfl, rfl⟩

theorem assignedTo_assignments (hhost : host ≠ "") (name : String) (content : Yaml.Value) :
    assignedTo host (assignments name content) = if name = host then listed content else [] := by
  by_cases hlist : ∃ items, content = .sequence items
  · obtain ⟨items, rfl⟩ := hlist
    obtain ⟨named, hassigned, hlisted⟩ := assignments_sequence name items
    rw [hassigned, hlisted, assignedTo_hostAssignments]
  · obtain ⟨hassigned, hlisted⟩ := assignments_of_not_sequence (not_exists.1 hlist) name
    rw [hassigned, hlisted, ite_self]
    cases content.scalarText? with
    | none => rfl
    | some text =>
      rw [Option.map_some, Option.toList_some, assignedTo_cons_of_ne (Ne.symm hhost)]
      rfl

/-- What stands at the top comes from scalars, unless there is a list without a name. -/
theorem assignedTo_top (h : name = "" → listed content = []) :
    assignedTo "" (assignments name content) =
      (content.scalarText?.map fun text ↦ (name, text)).toList := by
  by_cases hlist : ∃ items, content = .sequence items
  · obtain ⟨items, rfl⟩ := hlist
    obtain ⟨named, hassigned, hlisted⟩ := assignments_sequence name items
    rw [hassigned, assignedTo_hostAssignments]
    split
    · rename_i hname
      rw [← hlisted, h hname]
      rfl
    · rfl
  · rw [(assignments_of_not_sequence (not_exists.1 hlist) name).1]
    cases content.scalarText? with
    | none => rfl
    | some text => exact assignedTo_cons_self ⟨"", name, text⟩ []

theorem assignedTo_flatMap (host : String) (settings : List (String × Yaml.Value)) :
    assignedTo host (settings.flatMap fun (name, content) ↦ assignments name content) =
      settings.flatMap fun (name, content) ↦ assignedTo host (assignments name content) := by
  induction settings with
  | nil => rfl
  | cons entry settings ih => rw [List.flatMap_cons, List.flatMap_cons, assignedTo_append, ih]

theorem assignedTo_eq_hostSettings (hhost : host ≠ "") (settings : List (String × Yaml.Value)) :
    assignedTo host (settings.flatMap fun (name, content) ↦ assignments name content) =
      hostSettings settings host := by
  rw [assignedTo_flatMap, hostSettings]
  congr 1
  funext entry
  exact assignedTo_assignments hhost entry.1 entry.2

theorem assignedTo_eq_topSettings (h : hostSettings settings "" = []) :
    assignedTo "" (settings.flatMap fun (name, content) ↦ assignments name content) =
      topSettings settings := by
  rw [assignedTo_flatMap]
  induction settings with
  | nil => rfl
  | cons entry settings ih =>
    obtain ⟨name, content⟩ := entry
    rw [hostSettings, List.flatMap_cons, List.append_eq_nil_iff] at h
    obtain ⟨hentry, hrest⟩ := h
    have htop : name = "" → listed content = [] := fun hname ↦ (if_pos hname).symm.trans hentry
    rw [List.flatMap_cons, ih hrest, topSettings, topSettings, List.filterMap_cons]
    dsimp only
    rw [assignedTo_top htop]
    cases content.scalarText? <;> rfl

/-! ## The converted file -/

theorem isFile_store {isKey : NodeId → Prop} (horderly : s.document.Orderly isKey)
    (h : store s assigned = .ok s') (ht : s'.document.Holds t) : t.IsFile := by
  obtain ⟨isKey', horderly'⟩ := store_induction
    (motive := fun s ↦ ∃ isKey, s.document.Orderly isKey)
    (fun s s' host key value horderly hset ↦ orderly_set horderly.choose_spec hset)
    ⟨isKey, horderly⟩ h
  obtain ⟨t', htree, hfile⟩ := horderly'.exists_tree
  rw [ht.tree?] at htree
  exact Option.some.inj htree ▸ hfile

theorem locations_store (h : store s assigned = .ok s') : s'.locations = s.locations :=
  store_induction (motive := fun s' ↦ s'.locations = s.locations)
    (fun _ _ _ _ _ hs hset ↦ (locations_of_set hset).trans hs) rfl h

theorem hasHosts_defaults : HasHosts Defaults.tree :=
  ⟨_, rfl, rfl⟩

/-- What the document that takes the place of an old file holds. -/
theorem holds_convert {locations : Locations} {environment : Environment}
    (h : convert settings locations environment = .ok s) :
    ∃ t, s.document.Holds t ∧ t.IsFile ∧
      (∀ host, host ≠ "" → ∀ key, settingAt? host key t =
        (lastText? (hostSettings settings host) key).or (settingAt? host key Defaults.tree)) ∧
      (hostSettings settings "" = [] → ∀ key, settingAt? "" key t =
        (lastText? (topSettings settings) key).or (settingAt? "" key Defaults.tree)) := by
  obtain ⟨t, ht, hlast⟩ := settingAt?_store (hangs_ofFile Defaults.tree) hasHosts_defaults h
  refine ⟨t, ht, isFile_store (orderly_ofFile Defaults.isFile_tree) h ht, fun host hhost key ↦ ?_,
    fun htop key ↦ ?_⟩
  · rw [hlast, assignedTo_eq_hostSettings hhost]
  · rw [hlast, assignedTo_eq_topSettings htop]

end Legacy

end LayeredConfig
