import LayeredConfig.Proofs.Files.Renaming

/-!
# Runs with faults

An operation may be refused at any time, a write may stop half way, and a run may end behind any of
its operations. Renaming is atomic. What a program keeps on a disk is what holds behind every such
run: it is shown step by step along the program, with every answer that a step can get.
-/

namespace LayeredConfig

/-- The refusals of an operation that a disk need not show. What stands at a path is seen as it is,
and a file that is there is not taken for a missing one. -/
def FileOp.MayRefuse : FileOp → FileError → Prop
  | .entryKind _, _ => False
  | .read _, e => e ≠ .notFound
  | _, _ => True

namespace Disk

/-- What can come of one operation. -/
inductive Attempt (d : Disk) : (op : FileOp) → op.Answer → Disk → Prop
  | performed (op : FileOp) : Attempt d op (d.perform op).1 (d.perform op).2
  | refused {op : FileOp} {e : FileError} (h : op.MayRefuse e) : Attempt d op (.error e) d
  /-- Some octets were written, but not all, or not the right ones. -/
  | torn {p : Path} {contents written : ByteArray} {d' : Disk} (e : FileError)
      (h : d.write p written = .ok d') : Attempt d (.write p contents) (.error e) d'

variable {d d' : Disk} {p : Path}

theorem orKeep_cases (d : Disk) (result : Except FileError Disk) :
    ((∃ e, (d.orKeep result).1 = .error e) ∧ (d.orKeep result).2 = d) ∨
      (d.orKeep result).1 = .ok () ∧ result = .ok (d.orKeep result).2 := by
  cases result with
  | error e => exact .inl ⟨⟨e, rfl⟩, rfl⟩
  | ok d' => exact .inr ⟨rfl, rfl⟩

namespace Attempt

theorem kind {answer : (FileOp.kind p).Answer} (h : d.Attempt (.kind p) answer d') : d' = d := by
  cases h with
  | performed => rfl
  | refused => rfl

theorem kind_eq_ok {answer : (FileOp.kind p).Answer} {found : FileKind}
    (h : d.Attempt (.kind p) answer d') (hanswer : answer = .ok found) : d.kind true p = .ok found := by
  cases h with
  | performed => exact hanswer
  | refused => cases hanswer

theorem entryKind {answer : (FileOp.entryKind p).Answer} (h : d.Attempt (.entryKind p) answer d') :
    d' = d ∧ answer = d.kind false p := by
  cases h with
  | performed => exact ⟨rfl, rfl⟩
  | refused h => cases h

theorem read {answer : (FileOp.read p).Answer} (h : d.Attempt (.read p) answer d') :
    d' = d ∧ (answer = d.read p ∨ ∃ e, answer = .error e ∧ e ≠ .notFound) := by
  cases h with
  | performed => exact ⟨rfl, .inl rfl⟩
  | refused h => exact ⟨rfl, .inr ⟨_, rfl, h⟩⟩

theorem createDirectory {answer : (FileOp.createDirectory p).Answer}
    (h : d.Attempt (.createDirectory p) answer d') : d' = d ∨ d.createDirectory p = .ok d' := by
  cases h with
  | performed => exact (d.orKeep_cases (d.createDirectory p)).imp And.right And.right
  | refused => exact .inl rfl

theorem createDirectory_cases {answer : (FileOp.createDirectory p).Answer}
    (h : d.Attempt (.createDirectory p) answer d') :
    (∃ e, answer = .error e) ∧ d' = d ∨ answer = .ok () ∧ d.createDirectory p = .ok d' := by
  cases h with
  | performed => exact d.orKeep_cases (d.createDirectory p)
  | refused => exact .inl ⟨⟨_, rfl⟩, rfl⟩

theorem createTemporary {answer : (FileOp.createTemporary p).Answer}
    (h : d.Attempt (.createTemporary p) answer d') :
    (∃ e, answer = .error e) ∧ d' = d ∨ ∃ q, answer = .ok q ∧ d.createTemporary p = .ok (q, d') := by
  cases h with
  | performed =>
    rw [perform]
    cases d.createTemporary p with
    | error e => exact .inl ⟨⟨e, rfl⟩, rfl⟩
    | ok made => exact .inr ⟨made.1, rfl, rfl⟩
  | refused => exact .inl ⟨⟨_, rfl⟩, rfl⟩

theorem write_cases {contents : ByteArray} {answer : (FileOp.write p contents).Answer}
    (h : d.Attempt (.write p contents) answer d') :
    (∃ e, answer = .error e) ∧ (d' = d ∨ ∃ written, d.write p written = .ok d') ∨
      answer = .ok () ∧ d.write p contents = .ok d' := by
  cases h with
  | performed => exact (d.orKeep_cases (d.write p contents)).imp_left fun ⟨he, hd⟩ ↦ ⟨he, .inl hd⟩
  | refused => exact .inl ⟨⟨_, rfl⟩, .inl rfl⟩
  | torn e h => exact .inl ⟨⟨e, rfl⟩, .inr ⟨_, h⟩⟩

theorem write {contents : ByteArray} {answer : (FileOp.write p contents).Answer}
    (h : d.Attempt (.write p contents) answer d') : d' = d ∨ ∃ written, d.write p written = .ok d' := by
  obtain ⟨-, h⟩ | ⟨-, h⟩ := h.write_cases
  · exact h
  · exact .inr ⟨contents, h⟩

theorem rename {source target : Path} {answer : (FileOp.rename source target).Answer}
    (h : d.Attempt (.rename source target) answer d') :
    (∃ e, answer = .error e) ∧ d' = d ∨ answer = .ok () ∧ d.rename source target = .ok d' := by
  cases h with
  | performed => exact d.orKeep_cases (d.rename source target)
  | refused => exact .inl ⟨⟨_, rfl⟩, rfl⟩

theorem remove {answer : (FileOp.remove p).Answer} (h : d.Attempt (.remove p) answer d') :
    d' = d ∨ d.remove p = .ok d' := by
  cases h with
  | performed => exact (d.orKeep_cases (d.remove p)).imp And.right And.right
  | refused => exact .inl rfl

end Attempt

end Disk

namespace FileProgram

variable {α β ε : Type} {I : Disk → Prop} {Q Q' : α → Disk → Prop} {d d' : Disk}
  {p p' : FileProgram α}

/-- What is left of a program, and the disk, behind some of its operations. -/
inductive Reaches : FileProgram α → Disk → FileProgram α → Disk → Prop
  | here (p : FileProgram α) (d : Disk) : Reaches p d p d
  | step {op : FileOp} {next : op.Answer → FileProgram α} {answer : op.Answer} {d d₁ d' : Disk}
      {p' : FileProgram α} (h : d.Attempt op answer d₁) (hrest : Reaches (next answer) d₁ p' d') :
      Reaches (.step op next) d p' d'

/-- A run without faults comes to its result. -/
theorem reaches_run (p : FileProgram α) (d : Disk) : p.Reaches d (.done (p.run d).1) (p.run d).2 := by
  induction p generalizing d with
  | done a => exact .here _ d
  | step op next ih => exact .step (.performed op) (ih _ _)

/-- A run may end on a disk. -/
def MayLeave (p : FileProgram α) (d d' : Disk) : Prop :=
  ∃ p', p.Reaches d p' d'

namespace MayLeave

theorem start (p : FileProgram α) (d : Disk) : p.MayLeave d d :=
  ⟨p, .here p d⟩

theorem step {op : FileOp} {next : op.Answer → FileProgram α} {answer : op.Answer} {d₁ : Disk}
    (hattempt : d.Attempt op answer d₁) (h : (next answer).MayLeave d₁ d') :
    (FileProgram.step op next).MayLeave d d' := by
  obtain ⟨p', h⟩ := h
  exact ⟨p', .step hattempt h⟩

/-- A run of two programs in a row may end within the first. -/
theorem bind {f : α → FileProgram β} (h : p.MayLeave d d') : (p >>= f).MayLeave d d' := by
  obtain ⟨p', h⟩ := h
  induction h with
  | here p d => exact start _ d
  | step hattempt _ ih => exact step hattempt ih

theorem bind_ok {x : ExceptT ε FileProgram α} {f : α → ExceptT ε FileProgram β}
    (h : x.run.MayLeave d d') : (x >>= f).run.MayLeave d d' := by
  rw [ExceptT.run_bind]
  exact h.bind

/-- It goes on from where the first comes to without faults. -/
theorem bind_run {f : α → FileProgram β} (h : (f (p.run d).1).MayLeave (p.run d).2 d') :
    (p >>= f).MayLeave d d' := by
  induction p generalizing d with
  | done a => exact h
  | step op next ih => exact step (.performed op) (ih _ h)

theorem bind_run_ok {x : ExceptT ε FileProgram α} {f : α → ExceptT ε FileProgram β} {a : α}
    {d₁ : Disk} (hx : x.run.run d = (.ok a, d₁)) (h : (f a).run.MayLeave d₁ d') :
    (x >>= f).run.MayLeave d d' := by
  rw [ExceptT.run_bind]
  apply bind_run
  rw [hx]
  exact h

end MayLeave

/-- `I` holds before and behind every operation of a run with faults, and `Q` at its end. -/
def Keeps (I : Disk → Prop) (Q : α → Disk → Prop) : FileProgram α → Disk → Prop
  | done a, d => I d ∧ Q a d
  | step op next, d => I d ∧ ∀ answer d', d.Attempt op answer d' → (next answer).Keeps I Q d'

namespace Keeps

theorem invariant (h : p.Keeps I Q d) : I d := by
  cases p with
  | done a => exact h.1
  | step op next => exact h.1

theorem reaches (h : p.Keeps I Q d) (hreaches : p.Reaches d p' d') : p'.Keeps I Q d' := by
  induction hreaches with
  | here => exact h
  | step hattempt _ ih => exact ih (h.2 _ _ hattempt)

theorem mono {I' : Disk → Prop} (h : p.Keeps I Q d) (hI : ∀ d, I d → I' d)
    (hQ : ∀ a d, I d → Q a d → Q' a d) : p.Keeps I' Q' d := by
  induction p generalizing d with
  | done a => exact ⟨hI d h.1, hQ a d h.1 h.2⟩
  | step op next ih => exact ⟨hI d h.1, fun answer d' hattempt ↦ ih answer (h.2 answer d' hattempt)⟩

theorem bind {f : α → FileProgram β} {Q : β → Disk → Prop}
    (h : p.Keeps I (fun a d ↦ (f a).Keeps I Q d) d) : (p >>= f).Keeps I Q d := by
  induction p generalizing d with
  | done a => exact h.2
  | step op next ih => exact ⟨h.1, fun answer d' hattempt ↦ ih answer (h.2 answer d' hattempt)⟩

end Keeps

theorem keeps_pure {a : α} (hI : I d) (hQ : Q a d) : (pure a : FileProgram α).Keeps I Q d :=
  ⟨hI, hQ⟩

theorem keeps_call {op : FileOp} {Q : op.Answer → Disk → Prop} (hI : I d)
    (h : ∀ answer d', d.Attempt op answer d' → I d' ∧ Q answer d') : (call op).Keeps I Q d :=
  ⟨hI, h⟩

/-- What is to hold behind a step that succeeds, and behind one that fails. -/
def Ends (ok : α → Disk → Prop) (failed : ε → Disk → Prop) : Except ε α → Disk → Prop
  | .ok a, d => ok a d
  | .error e, d => failed e d

theorem Keeps.bind_ok {x : ExceptT ε FileProgram α} {f : α → ExceptT ε FileProgram β}
    {Q : Except ε β → Disk → Prop}
    (h : x.run.Keeps I (Ends (fun a d ↦ (f a).run.Keeps I Q d) fun e d ↦ Q (.error e) d) d) :
    (x >>= f).run.Keeps I Q d := by
  rw [ExceptT.run_bind]
  apply Keeps.bind
  refine h.mono (fun _ ↦ id) ?_
  rintro (e | a) d hI hQ
  · exact keeps_pure hI hQ
  · exact hQ

theorem keeps_lift {work : FileProgram α} {Q : Except ε α → Disk → Prop}
    (h : work.Keeps I (fun a d ↦ Q (.ok a) d) d) :
    (ExceptT.lift work : ExceptT ε FileProgram α).run.Keeps I Q d := by
  change (work >>= _ : FileProgram _).Keeps I Q d
  exact Keeps.bind (h.mono (fun _ ↦ id) fun a d hI hQ ↦ keeps_pure hI hQ)

end FileProgram

namespace Access

open LayeredConfig.FileProgram

variable {I : Disk → Prop} {d : Disk} {path : Path}

/-- An operation whose failure is reported for a path. -/
theorem keeps_attempt {action : FileAction} {op : FileOp}
    {Q : Except FileFailure op.Value → Disk → Prop} (hI : I d)
    (h : ∀ answer d', d.Attempt op answer d' → I d' ∧ Q (answer.mapError (.of action path)) d') :
    (attempt action path op).run.Keeps I Q d := by
  change (FileProgram.call op >>= _ : FileProgram _).Keeps I Q d
  apply Keeps.bind
  refine keeps_call hI fun answer d' hattempt ↦ ?_
  obtain ⟨hI', hQ⟩ := h answer d' hattempt
  refine ⟨hI', ?_⟩
  cases answer with
  | error e => exact keeps_pure hI' hQ
  | ok value => exact keeps_pure hI' hQ

/-! ## Reading -/

/-- What the check of directories fails for is one of the paths. Something is there, and it is no
directory. -/
theorem keeps_checkDirectories (hI : I d) (paths : List Path) :
    (checkDirectories paths).Keeps I (fun result d' ↦ d' = d ∧
      ∀ failure, result = .error failure → ∃ q ∈ paths, failure = .notDirectory q ∧
        ∃ kind, d.kind true q = .ok kind ∧ kind ≠ .directory) d := by
  induction paths with
  | nil => exact keeps_pure hI ⟨rfl, fun _ h ↦ by cases h⟩
  | cons path paths ih =>
    rw [checkDirectories]
    apply Keeps.bind
    refine keeps_call hI fun answer d' hattempt ↦ ?_
    obtain rfl := hattempt.kind
    refine ⟨hI, ?_⟩
    split
    · exact keeps_pure hI ⟨rfl, fun _ h ↦ by cases h⟩
    · rename_i kind hne
      refine keeps_pure hI ⟨rfl, fun _ h ↦ ⟨path, List.mem_cons_self, (Except.error.inj h).symm, kind,
        hattempt.kind_eq_ok rfl, ?_⟩⟩
      rintro rfl
      exact hne rfl
    · refine ih.mono (fun _ ↦ id) fun result d₁ _ hresult ↦ ⟨hresult.1, fun failure h ↦ ?_⟩
      obtain ⟨q, hq, hfailure⟩ := hresult.2 failure h
      exact ⟨q, List.mem_cons_of_mem _ hq, hfailure⟩

theorem keeps_checkDirectory (hI : I d) (path : Path) :
    (checkDirectory path).run.Keeps I (fun result d' ↦ d' = d ∧
      ∀ failure, result = .error failure → ∃ q ∈ path.ancestors, failure = .notDirectory q ∧
        ∃ kind, d.kind true q = .ok kind ∧ kind ≠ .directory) d :=
  keeps_checkDirectories hI path.ancestors

/-- Reading changes nothing. A text that is read is there, and a file that is reported as missing is
not. -/
theorem keeps_readText_result (hI : I d) (path : Path) :
    (readText path).run.Keeps I (fun result d' ↦ d' = d ∧
      (∀ text, result = .ok text →
        ∃ bytes, d.read path = .ok bytes ∧ String.fromUTF8? bytes = some text) ∧
      ∀ q, result = .error (.notExist q) → d.read path = .error .notFound) d := by
  rw [readText]
  apply Keeps.bind_ok
  refine (keeps_checkDirectory hI path.directory).mono (fun _ ↦ id) ?_
  rintro (failure | ⟨⟩) d' - ⟨rfl, hfailure⟩
  · obtain ⟨q, -, rfl, -⟩ := hfailure failure rfl
    exact ⟨rfl, fun _ h ↦ (by cases h), fun q h ↦ by cases h⟩
  apply Keeps.bind_ok
  refine keeps_attempt hI fun answer d'' hattempt ↦ ?_
  obtain ⟨rfl, hanswer⟩ := hattempt.read
  refine ⟨hI, ?_⟩
  cases answer with
  | error e =>
    refine ⟨rfl, fun _ h ↦ (by cases h), fun q hmissing ↦ ?_⟩
    have hfound : e = .notFound := by
      by_contra hne
      rw [FileFailure.of, if_neg hne] at hmissing
      cases hmissing
    subst hfound
    obtain heq | ⟨e', heq, he'⟩ := hanswer
    · exact heq.symm
    · exact absurd (Except.error.inj heq).symm he'
  | ok bytes =>
    have hread : d''.read path = .ok bytes := by
      obtain heq | ⟨e', heq, -⟩ := hanswer
      · exact heq.symm
      · cases heq
    change FileProgram.Keeps I _ (ExceptT.run _) _
    split
    · rename_i text htext
      refine keeps_pure hI ⟨rfl, fun text' h ↦ ⟨bytes, hread, ?_⟩, fun q h ↦ by cases h⟩
      rw [htext, Except.ok.inj h]
    · exact keeps_pure hI ⟨rfl, fun _ h ↦ (by cases h), fun q h ↦ by cases h⟩

/-- Reading changes nothing, and a file that is there is never reported as missing. -/
theorem keeps_readText (hI : I d) (path : Path) :
    (readText path).run.Keeps I (fun result d' ↦ d' = d ∧
      ∀ bytes, d.read path = .ok bytes → ∀ q, result ≠ .error (.notExist q)) d := by
  refine (keeps_readText_result hI path).mono (fun _ ↦ id) ?_
  rintro result d' - ⟨rfl, -, hmissing⟩
  refine ⟨rfl, fun bytes hread q heq ↦ ?_⟩
  rw [hmissing q heq] at hread
  cases hread

end Access

end LayeredConfig
