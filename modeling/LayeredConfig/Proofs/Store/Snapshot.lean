import Mathlib
import LayeredConfig.Proofs.Document.Edit
import LayeredConfig.Proofs.Document.SameTexts
import LayeredConfig.Store.Operation

/-!
# The table of a mapping and its keys

A name of a scope is looked up in two ways: in the table of all texts, which takes the first text
under a key, and in the mapping itself, which takes the first entry under the key and finds no text
when that entry holds none. The two agree on a name unless an entry without a text stands before
one with a text.
-/

namespace LayeredConfig

namespace Document

variable {d : Document} {map : NodeId} {key : String}

/-- The table holds the first text under a key. -/
theorem lookup_snapshot (d : Document) (map : NodeId) (key : String) :
    (d.snapshot map).lookup key =
      (d.entries map).findSome? (textUnder? (d.scalar? ·.1) (d.scalar? ·.2) key) :=
  lookup_foldl_addFirst (d.entries map) []

/-! ## The first entry under a key -/

/-- The first entry under a key holds no text, but a later one does. -/
def HidesText (d : Document) (map : NodeId) (key : String) : Prop :=
  ∃ entry, d.findEntry? map key = some entry ∧ d.scalar? entry.value = none ∧
    ∃ later ∈ d.entries map, d.scalar? later.1 = some key ∧ d.scalar? later.2 ≠ none

/-- The first entry under a key decides, if it holds a text. -/
theorem lookup_snapshot_of_found {entry : Entry} {text : String}
    (h : d.findEntry? map key = some entry) (htext : d.scalar? entry.value = some text) :
    (d.snapshot map).lookup key = some text := by
  obtain ⟨hindex, hentry⟩ := findEntry?_eq_some_iff.1 h
  obtain ⟨hlt, hkey, hbefore⟩ := List.findIdx?_eq_some_iff_getElem.1 hindex
  obtain ⟨_, heq⟩ := List.getElem?_eq_some_iff.1 hentry
  have hsplit : d.entries map = (d.entries map).take entry.index ++
      (entry.key, entry.value) :: (d.entries map).drop (entry.index + 1) := by
    rw [← heq, ← List.drop_eq_getElem_cons, List.take_append_drop]
  rw [heq, decide_eq_true_eq] at hkey
  rw [lookup_snapshot, hsplit]
  refine findSome?_textUnder?_split (fun other hmem hother ↦ ?_) hkey htext
  obtain ⟨index, hlt', rfl⟩ := List.mem_take_iff_getElem.1 hmem
  exact hbefore index (Nat.lt_of_lt_of_le hlt' (Nat.min_le_left _ _)) (decide_eq_true hother)

/-- Table and mapping agree on a key unless its first entry holds no text and a later one does. -/
theorem lookup_snapshot_eq_get?_iff (d : Document) (map : NodeId) (key : String) :
    (d.snapshot map).lookup key = d.get? map key ↔ ¬ d.HidesText map key := by
  cases hfound : d.findEntry? map key with
  | none =>
    have hnone := findEntry?_eq_none_iff.1 hfound
    refine iff_of_true ?_ fun ⟨entry, hentry, _⟩ ↦ ?_
    · rw [lookup_snapshot, get?, hfound]
      exact findSome?_textUnder?_eq_none_iff.2 fun entry hmem hkey ↦ absurd hkey (hnone entry hmem)
    · rw [hfound] at hentry
      cases hentry
  | some entry =>
    have hget : d.get? map key = d.scalar? entry.value := by
      rw [get?, hfound]
      rfl
    rw [hget]
    cases htext : d.scalar? entry.value with
    | some text =>
      refine iff_of_true (lookup_snapshot_of_found hfound htext) fun ⟨other, hother, hnone, _⟩ ↦ ?_
      obtain rfl := Option.some.inj (hfound.symm.trans hother)
      rw [htext] at hnone
      cases hnone
    | none =>
      rw [lookup_snapshot, findSome?_textUnder?_eq_none_iff]
      constructor
      · rintro hall ⟨-, -, -, later, hlater, hkey, hsome⟩
        exact hsome (hall later hlater hkey)
      · intro hnot later hlater hkey
        exact Classical.byContradiction fun hsome ↦
          hnot ⟨entry, hfound, htext, later, hlater, hkey, hsome⟩

end Document

namespace FileStore

open LayeredConfig.Document

variable {s s' : FileStore} {map : NodeId} {name : String}

/-- An invocation looks at the table for its own name only. -/
theorem expandWith_congr {m : Type → Type} [Monad m] {table table' : Table}
    (h : table.get? name = table'.get? name) (findShell : m (Except Alias.ShellError String))
    (program : String) (arguments : List String) :
    Alias.expandWith table findShell (program :: name :: arguments) =
      Alias.expandWith table' findShell (program :: name :: arguments) := by
  rw [Alias.expandWith, Alias.expandWith, h]

/-- An alias is expanded when the scope of the aliases finds it, to what it finds there. -/
theorem expand_of_get? (hopen : s.openScope .aliases = .ok (s', map))
    (h : (s'.scopeAll map).get? name = s'.scopeGet? .aliases map name) (findShell : ShellFinder)
    (program : String) (arguments : List String) :
    s.expand findShell (program :: name :: arguments) =
      match s'.scopeGet? .aliases map name with
      | none => pure (.ok ⟨name :: arguments, false⟩, s')
      | some text => do
        let result ← Alias.expandWith ⟨[(name, text)]⟩ findShell (program :: name :: arguments)
        return (result.mapError .expansion, s') := by
  rw [expand, hopen]
  dsimp only
  cases hfound : s'.scopeGet? .aliases map name with
  | none =>
    rw [hfound] at h
    rw [Alias.expandWith, h]
    rfl
  | some text =>
    have hsame : (s'.scopeAll map).get? name = Table.get? ⟨[(name, text)]⟩ name := by
      rw [h, hfound, Table.get?, List.lookup_cons, beq_self_eq_true]
    rw [expandWith_congr hsame]

/-- The table of a mapping and the mapping itself agree on a key unless the first entry under the
key holds no text and a later one does. So do the two ways to look up a name in a scope, and an
alias is expanded when the scope finds it. -/
theorem snapshot_agrees_iff (s : FileStore) (map : NodeId) :
    (∀ key, (s.document.snapshot map).lookup key = s.document.get? map key ↔
      ¬ s.document.HidesText map key) ∧
    (∀ (scope : Scope) (name : String),
      (s.scopeAll map).get? (scope.normalize name) = s.scopeGet? scope map name ↔
        ¬ s.document.HidesText map (scope.normalize name)) ∧
    ∀ (before : FileStore) (name : String), before.openScope .aliases = .ok (s, map) →
      ¬ s.document.HidesText map name →
      ∀ (findShell : ShellFinder) (program : String) (arguments : List String),
        before.expand findShell (program :: name :: arguments) =
          match s.scopeGet? .aliases map name with
          | none => pure (.ok ⟨name :: arguments, false⟩, s)
          | some text => do
            let result ← Alias.expandWith ⟨[(name, text)]⟩ findShell (program :: name :: arguments)
            return (result.mapError .expansion, s) := by
  have hscope (scope : Scope) (name : String) :
      (s.scopeAll map).get? (scope.normalize name) = s.scopeGet? scope map name ↔
        ¬ s.document.HidesText map (scope.normalize name) :=
    lookup_snapshot_eq_get?_iff s.document map (scope.normalize name)
  exact ⟨lookup_snapshot_eq_get?_iff s.document map, hscope, fun before name hopen hnot ↦
    expand_of_get? hopen ((hscope .aliases name).2 hnot)⟩

/-- Of two aliases of one name the first is found, and the invocation becomes what it says. -/
theorem snapshot_agrees_iff_repeated :
    ∃ d s' map, parse "aliases:\n  co: a\n  co: b\n" = .ok d ∧
      (FileStore.mk d ⟨⟨"cfg"⟩, ⟨"repo"⟩⟩ {}).openScope .aliases = .ok (s', map) ∧
      ¬ s'.document.HidesText map "co" ∧ s'.scopeGet? .aliases map "co" = some "a" ∧
      ∀ findShell, (FileStore.mk d ⟨⟨"cfg"⟩, ⟨"repo"⟩⟩ {}).expand findShell ["glab", "co", "7"] =
        pure (.ok ⟨["a", "7"], false⟩, s') := by
  obtain ⟨d, s', map, hparse, hopen, hget, hall⟩ : ∃ d s' map,
      parse "aliases:\n  co: a\n  co: b\n" = .ok d ∧
      (FileStore.mk d ⟨⟨"cfg"⟩, ⟨"repo"⟩⟩ {}).openScope .aliases = .ok (s', map) ∧
      s'.scopeGet? .aliases map "co" = some "a" ∧
      (s'.scopeAll map).get? "co" = some "a" :=
    ⟨_, _, _, by cbv, rfl, by decide +kernel, by decide +kernel⟩
  have hnot : ¬ s'.document.HidesText map "co" :=
    ((snapshot_agrees_iff s' map).2.1 .aliases "co").1 (hall.trans hget.symm)
  refine ⟨d, s', map, hparse, hopen, hnot, hget, fun findShell ↦ ?_⟩
  rw [(snapshot_agrees_iff s' map).2.2 _ "co" hopen hnot findShell "glab" ["7"], hget]
  have hbody : Alias.shellBody? "a" = none := by decide +kernel
  have htext : Alias.expandText "a" ["7"] = .ok ⟨["a", "7"], false⟩ := by cbv
  have hexpand : Alias.expandWith ⟨[("co", "a")]⟩ findShell ["glab", "co", "7"] =
      pure (.ok ⟨["a", "7"], false⟩) := by
    rw [Alias.expandWith, Table.get?, List.lookup_cons, beq_self_eq_true]
    dsimp only
    rw [hbody, htext]
  dsimp only
  rw [hexpand]
  rfl

/-- A mapping stands under a name that has a text further down: the table knows the text. -/
theorem hidden_text_in_table :
    ¬ ∀ (text : String) (d : Document) (map : NodeId) (key : String), parse text = .ok d →
      (d.snapshot map).lookup key = d.get? map key := by
  intro h
  obtain ⟨d, hparse, hall, hget⟩ : ∃ d, parse "co:\n  x: y\nco: a\n" = .ok d ∧
      (d.snapshot d.root).lookup "co" = some "a" ∧ d.get? d.root "co" = none :=
    ⟨_, by cbv, by decide +kernel, by decide +kernel⟩
  have hsame := h _ d d.root "co" hparse
  rw [hall, hget] at hsame
  cases hsame

end FileStore

end LayeredConfig
