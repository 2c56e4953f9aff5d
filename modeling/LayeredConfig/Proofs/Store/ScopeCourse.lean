import LayeredConfig.Proofs.Document.HiddenKeys
import LayeredConfig.Proofs.Document.Simulation
import LayeredConfig.Proofs.Files.Yields
import LayeredConfig.Store.Operation

/-!
# The course of an operation

An operation on an open scope looks something up, or it is refused, or it leaves a changed document
in memory and then writes the mapping of the scope. Whatever it answers, an operation on a store
makes one of a few changes of it.
-/

namespace LayeredConfig.FileStore

open LayeredConfig.Tree
open LayeredConfig.Document
open LayeredConfig.FileProgram

variable {s s' : FileStore} {u u' : Tree} {scope : Scope} {operation : ScopeOperation} {map : NodeId}
  {document : Document} {findShell : ShellFinder} {result : Result}

/-! ## File work -/

/-- File work that can only fail at a file. -/
def FilesOnly (work : Load Unit) : Prop :=
  work.run.Yields (.ok ()) ∧ ∀ e, work.run.Yields (.error e) → ∃ cause, e = .file cause

theorem filesOnly_ofFiles {work : ExceptT FileFailure FileProgram Unit}
    (h : work.run.Yields (.ok ())) : FilesOnly (ofFiles work) := by
  refine ⟨yields_bind.2 ⟨.ok (), h, yields_pure.2 rfl⟩, fun e hyields ↦ ?_⟩
  obtain ⟨result, -, hyields⟩ := yields_bind.1 hyields
  cases result with
  | ok =>
    have heq := yields_pure.1 hyields
    cases heq
  | error cause => exact ⟨cause, (Except.error.inj (yields_pure.1 hyields)).symm⟩

theorem filesOnly_write (s : FileStore) : FilesOnly s.write :=
  filesOnly_ofFiles (Access.yields_writeText _ _)

theorem filesOnly_writeScope (s : FileStore) (scope : Scope) (map : NodeId) :
    FilesOnly (s.writeScope scope map) :=
  filesOnly_ofFiles (Access.yields_writeText _ _)

/-- Writing an open scope leaves the store as it is. -/
theorem write_of_yields (h : (s.performScope scope map .write).Yields (result, s')) :
    s' = s ∧ (result = .ok .done ∨ ∃ cause, result = .error (.config (.file cause))) := by
  obtain ⟨written, hwrite, h⟩ := yields_bind.1 h
  obtain ⟨rfl, rfl⟩ := Prod.mk.inj (yields_pure.1 h)
  refine ⟨rfl, ?_⟩
  cases written with
  | ok => exact .inl rfl
  | error e =>
    obtain ⟨cause, rfl⟩ := (filesOnly_writeScope s scope map).2 e hwrite
    exact .inr ⟨cause, rfl⟩

theorem yields_write (s : FileStore) (scope : Scope) (map : NodeId) :
    (s.performScope scope map .write).Yields (.ok .done, s) :=
  yields_bind.2 ⟨.ok (), (filesOnly_writeScope s scope map).1, yields_pure.2 rfl⟩

/-! ## Operations on an open scope -/

/-- The change of the mapping of a scope by an operation that writes it. -/
inductive Edits (scope : Scope) : ScopeOperation → Tree → Tree → Prop
  | set {name value : String} {u u' : Tree}
      (h : u.update (scope.normalize name) (storeText (scope.normalize name) value) = .ok u') :
      Edits scope (.set name value) u u'
  | delete {name : String} {u u' : Tree} (h : u.remove? (scope.normalize name) = some u') :
      Edits scope (.delete name) u u'
  | write (u : Tree) : Edits scope .write u u

theorem Edits.isMapping (h : Edits scope operation u u') (hu : u.isMapping = true) :
    u'.isMapping = true := by
  cases h with
  | set h => exact isMapping_update h
  | delete h => exact isMapping_remove? h
  | write => exact hu

/-- The document that such an operation leaves of one with an open scope. -/
inductive Leaves (scope : Scope) (document : Document) (map : NodeId) :
    ScopeOperation → Document → Prop
  | set {name value : String} {document' : Document} {entry : Entry}
      (h : document.setText map (scope.normalize name) value = .ok (document', entry)) :
      Leaves scope document map (.set name value) document'
  | delete {name : String} {document' : Document} {entry : Entry}
      (h : document.removeEntry map (scope.normalize name) = some (document', entry)) :
      Leaves scope document map (.delete name) document'
  | write : Leaves scope document map .write document

theorem Leaves.becomes {document document' : Document} {places : List NodeId}
    (h : Leaves scope document map operation document') (hangs : Hangs document u map places)
    (hnodup : places.Nodup) :
    ∃ u' places', Edits scope operation u u' ∧
      Becomes document places document' u' map places' := by
  cases h with
  | set h =>
    obtain ⟨u', places', hu', hbecomes⟩ := hangs.setText hnodup h
    exact ⟨u', places', .set hu', hbecomes⟩
  | delete h =>
    obtain ⟨u', places', hu', hbecomes⟩ := hangs.removeEntry hnodup h
    exact ⟨u', places', .delete hu', hbecomes⟩
  | write => exact ⟨u, places, .write u, .refl hangs hnodup⟩

theorem Edits.exists_leaves (h : Edits scope operation u u') (hu : document.Holds u) :
    ∃ document', Leaves scope document document.root operation document' ∧ document'.Holds u' := by
  cases h with
  | set h =>
    obtain ⟨document', entry, hset, hholds⟩ := hu.setText h
    exact ⟨document', .set hset, hholds⟩
  | delete h =>
    obtain ⟨document', entry, hremove, hholds⟩ := hu.removeEntry h
    exact ⟨document', .delete hremove, hholds⟩
  | write => exact ⟨document, .write, hu⟩

/-- Behind the change in memory, every such operation goes on as writing does. -/
theorem performScope_of_leaves (h : Leaves scope s.document map operation document) :
    s.performScope scope map operation =
      performScope { s with document := document } scope map .write := by
  cases h with
  | set htext =>
    rw [performScope, scopeSet, htext]
    simp only [bind_assoc, pure_bind]
    rfl
  | delete hremove =>
    rw [performScope, scopeDelete, hremove]
    simp only [bind_assoc, pure_bind]
    rfl
  | write => rfl

/-- How an operation on an open scope goes. -/
inductive ScopeCourse (s : FileStore) (scope : Scope) (map : NodeId) : ScopeOperation → Prop
  | get (name : String) : ScopeCourse s scope map (.get name)
  | all : ScopeCourse s scope map .all
  | refused {operation : ScopeOperation} {e : AliasError} (hcause : ∀ cause, e ≠ .config (.file cause))
      (hrefused : s.performScope scope map operation = pure (.error e, s)) :
      ScopeCourse s scope map operation
  | leaves {operation : ScopeOperation} {document : Document}
      (hleaves : Leaves scope s.document map operation document) : ScopeCourse s scope map operation

theorem scopeCourse (s : FileStore) (scope : Scope) (map : NodeId) (operation : ScopeOperation) :
    ScopeCourse s scope map operation := by
  cases operation with
  | get name => exact .get name
  | all => exact .all
  | write => exact .leaves .write
  | set name value =>
    cases htext : s.document.setText map (scope.normalize name) value with
    | ok left => exact .leaves (.set htext)
    | error e =>
      refine .refused (e := .config (.shape e)) nofun ?_
      rw [performScope, scopeSet, htext]
      rfl
  | delete name =>
    cases hremove : s.document.removeEntry map (scope.normalize name) with
    | some left => exact .leaves (.delete hremove)
    | none =>
      refine .refused (e := .config (.notFound scope (scope.normalize name))) nofun ?_
      rw [performScope, scopeDelete, hremove]
      rfl

/-- What an operation on an open scope answers, and the store that it leaves. -/
inductive ScopeOutcome (s : FileStore) (scope : Scope) (map : NodeId) :
    ScopeOperation → Result → FileStore → Prop
  | get (name : String) :
      ScopeOutcome s scope map (.get name) (.ok (.found (s.scopeGet? scope map name))) s
  | all : ScopeOutcome s scope map .all (.ok (.table (s.scopeAll map))) s
  | refused {operation : ScopeOperation} {e : AliasError}
      (hcause : ∀ cause, e ≠ .config (.file cause)) : ScopeOutcome s scope map operation (.error e) s
  | done {operation : ScopeOperation} {document : Document}
      (hleaves : Leaves scope s.document map operation document) :
      ScopeOutcome s scope map operation (.ok .done) { s with document := document }
  | notWritten {operation : ScopeOperation} {document : Document} {cause : FileFailure}
      (hleaves : Leaves scope s.document map operation document) :
      ScopeOutcome s scope map operation (.error (.config (.file cause)))
        { s with document := document }

theorem scopeOutcome_of_yields (h : (s.performScope scope map operation).Yields (result, s')) :
    ScopeOutcome s scope map operation result s' := by
  cases scopeCourse s scope map operation with
  | get name =>
    obtain ⟨rfl, rfl⟩ := Prod.mk.inj (yields_pure.1 h)
    exact .get name
  | all =>
    obtain ⟨rfl, rfl⟩ := Prod.mk.inj (yields_pure.1 h)
    exact .all
  | refused hcause hrefused =>
    rw [hrefused] at h
    obtain ⟨rfl, rfl⟩ := Prod.mk.inj (yields_pure.1 h)
    exact .refused hcause
  | leaves hleaves =>
    rw [performScope_of_leaves hleaves] at h
    obtain ⟨rfl, rfl | ⟨cause, rfl⟩⟩ := write_of_yields h
    · exact .done hleaves
    · exact .notWritten hleaves

/-- A store is left as it is or with a changed document. -/
theorem ScopeOutcome.eq_or_leaves (h : ScopeOutcome s scope map operation result s') :
    s' = s ∨ ∃ document, Leaves scope s.document map operation document ∧
      s' = { s with document := document } := by
  cases h with
  | get => exact .inl rfl
  | all => exact .inl rfl
  | refused => exact .inl rfl
  | done hleaves => exact .inr ⟨_, hleaves, rfl⟩
  | notWritten hleaves => exact .inr ⟨_, hleaves, rfl⟩

/-! ## Operations -/

/-- The change that an operation makes of a store, also when it fails. Writing all files and
expanding an alias open the scope of the aliases and leave it as it is. -/
inductive Transition (s : FileStore) : FileStore → Prop
  | same : Transition s s
  | set (host key value : String) : Transition s (s.set host key value).2
  | unsetHost (host : String) : Transition s (s.unsetHost host)
  | opened {scope : Scope} {map : NodeId} {s₁ : FileStore}
      (hopen : s.openScope scope = .ok (s₁, map)) : Transition s s₁
  | scope {scope : Scope} {map : NodeId} {s₁ s' : FileStore} {operation : ScopeOperation}
      {result : Result} (hopen : s.openScope scope = .ok (s₁, map))
      (houtcome : ScopeOutcome s₁ scope map operation result s') : Transition s s'

theorem transition_of_yields {operation : Operation}
    (h : (s.perform findShell operation).Yields (result, s')) : Transition s s' := by
  cases operation with
  | get host key =>
    obtain rfl := (Prod.mk.inj (yields_pure.1 h)).2
    exact .same
  | getWithSource host key =>
    obtain rfl := (Prod.mk.inj (yields_pure.1 h)).2
    exact .same
  | hosts =>
    obtain rfl := (Prod.mk.inj (yields_pure.1 h)).2
    exact .same
  | set host key value =>
    obtain rfl := (Prod.mk.inj (yields_pure.1 h)).2
    exact .set host key value
  | unsetHost host =>
    obtain rfl := (Prod.mk.inj (yields_pure.1 h)).2
    exact .unsetHost host
  | write =>
    obtain ⟨written, -, h⟩ := yields_bind.1 h
    obtain rfl := (Prod.mk.inj (yields_pure.1 h)).2
    exact .same
  | writeAll =>
    obtain ⟨⟨written, s₁⟩, hwrite, h⟩ := yields_bind.1 h
    obtain rfl := (Prod.mk.inj (yields_pure.1 h)).2
    obtain ⟨main, -, hwrite⟩ := yields_bind.1 hwrite
    split at hwrite
    · obtain rfl := (Prod.mk.inj (yields_pure.1 hwrite)).2
      exact .same
    · split at hwrite
      · obtain rfl := (Prod.mk.inj (yields_pure.1 hwrite)).2
        exact .same
      · rename_i s₂ map hopen
        obtain ⟨aliases, -, hwrite⟩ := yields_bind.1 hwrite
        obtain rfl := (Prod.mk.inj (yields_pure.1 hwrite)).2
        exact .opened hopen
  | expand invocation =>
    obtain ⟨⟨expanded, s₁⟩, hexpand, h⟩ := yields_bind.1 h
    obtain rfl := (Prod.mk.inj (yields_pure.1 h)).2
    unfold expand at hexpand
    split at hexpand
    · obtain rfl := (Prod.mk.inj (yields_pure.1 hexpand)).2
      exact .same
    · rename_i s₂ map hopen
      obtain ⟨expansion, -, hexpand⟩ := yields_bind.1 hexpand
      obtain rfl := (Prod.mk.inj (yields_pure.1 hexpand)).2
      exact .opened hopen
  | scope scope operation =>
    rw [perform] at h
    split at h
    · obtain rfl := (Prod.mk.inj (yields_pure.1 h)).2
      exact .same
    · rename_i s₁ map hopen
      exact .scope hopen (scopeOutcome_of_yields h)

end LayeredConfig.FileStore
