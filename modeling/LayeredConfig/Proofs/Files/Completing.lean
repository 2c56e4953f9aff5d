import LayeredConfig.Proofs.Files.Writing

/-!
# Runs that come to a result

A run with faults that is not cut off comes to a result. Some kinds of operations may be trusted to
be carried out in it; every other one may fail at any time. Such a run of two programs in a row is a
run of the first and then one of the second.
-/

namespace LayeredConfig

/-- The operations that remove a file. -/
def FileOp.IsRemoval : FileOp → Prop
  | .remove _ => True
  | _ => False

/-- The operations that look at what a path leads to. -/
def FileOp.IsLook : FileOp → Prop
  | .kind _ => True
  | _ => False

namespace FileProgram

variable {α β ε : Type} {sure : FileOp → Prop} {d d' : Disk}

/-- A run with faults comes to a result. The operations in `sure` are carried out. -/
inductive Completes (sure : FileOp → Prop) : FileProgram α → Disk → α → Disk → Prop
  | done (a : α) (d : Disk) : Completes sure (.done a) d a d
  | step {op : FileOp} {next : op.Answer → FileProgram α} {answer : op.Answer} {d d₁ d' : Disk} {a : α}
      (h : d.Attempt op answer d₁) (hsure : sure op → d.perform op = (answer, d₁))
      (hrest : Completes sure (next answer) d₁ a d') : Completes sure (.step op next) d a d'

/-- A run without faults comes to its result. -/
theorem completes_run (sure : FileOp → Prop) (p : FileProgram α) (d : Disk) :
    p.Completes sure d (p.run d).1 (p.run d).2 := by
  induction p generalizing d with
  | done a => exact .done a d
  | step op next ih => exact .step (.performed op) (fun _ ↦ rfl) (ih _ _)

theorem Completes.reaches {p : FileProgram α} {a : α} (h : p.Completes sure d a d') :
    p.Reaches d (.done a) d' := by
  induction h with
  | done a d => exact .here _ d
  | step hattempt _ _ ih => exact .step hattempt ih

theorem Keeps.completes {I : Disk → Prop} {Q : α → Disk → Prop} {p : FileProgram α} {a : α}
    (hkeeps : p.Keeps I Q d) (h : p.Completes sure d a d') : I d' ∧ Q a d' :=
  hkeeps.reaches h.reaches

theorem completes_pure {a b : α} :
    (pure a : FileProgram α).Completes sure d b d' ↔ b = a ∧ d' = d := by
  constructor
  · intro h
    cases h
    exact ⟨rfl, rfl⟩
  · rintro ⟨rfl, rfl⟩
    exact .done _ _

theorem completes_call {op : FileOp} {answer : op.Answer} :
    (call op).Completes sure d answer d' ↔
      d.Attempt op answer d' ∧ (sure op → d.perform op = (answer, d')) := by
  constructor
  · intro h
    cases h with
    | step hattempt hsure hrest =>
      cases hrest
      exact ⟨hattempt, hsure⟩
  · rintro ⟨hattempt, hsure⟩
    exact .step hattempt hsure (.done _ _)

theorem completes_bind {p : FileProgram α} {f : α → FileProgram β} {b : β} :
    (p >>= f).Completes sure d b d' ↔
      ∃ a d₁, p.Completes sure d a d₁ ∧ (f a).Completes sure d₁ b d' := by
  constructor
  · intro h
    induction p generalizing d with
    | done a => exact ⟨a, d, .done a d, h⟩
    | step op next ih =>
      cases h with
      | step hattempt hsure hrest =>
        obtain ⟨a, d₁, hp, hf⟩ := ih _ hrest
        exact ⟨a, d₁, .step hattempt hsure hp, hf⟩
  · rintro ⟨a, d₁, hp, hf⟩
    induction hp with
    | done a d => exact hf
    | step hattempt hsure _ ih => exact .step hattempt hsure (ih hf)

/-- What two programs that may fail come to: the failure of the first, or what the second does. -/
theorem Completes.bind_cases {x : ExceptT ε FileProgram α} {f : α → ExceptT ε FileProgram β}
    {result : Except ε β} (h : (x >>= f).run.Completes sure d result d') :
    (∃ e, result = .error e ∧ x.run.Completes sure d (.error e) d') ∨
      ∃ a d₁, x.run.Completes sure d (.ok a) d₁ ∧ (f a).run.Completes sure d₁ result d' := by
  rw [ExceptT.run_bind] at h
  obtain ⟨first, d₁, hx, hf⟩ := completes_bind.1 h
  cases first with
  | error e =>
    obtain ⟨rfl, rfl⟩ := completes_pure.1 hf
    exact .inl ⟨e, rfl, hx⟩
  | ok a => exact .inr ⟨a, d₁, hx, hf⟩

theorem Completes.of_lift {work : FileProgram α} {result : Except ε α}
    (h : (ExceptT.lift work : ExceptT ε FileProgram α).run.Completes sure d result d') :
    ∃ a, result = .ok a ∧ work.Completes sure d a d' := by
  change (work >>= _ : FileProgram _).Completes sure d result d' at h
  obtain ⟨a, d₁, hwork, hpure⟩ := completes_bind.1 h
  obtain ⟨rfl, rfl⟩ := completes_pure.1 hpure
  exact ⟨a, rfl, hwork⟩

end FileProgram

namespace Access

open LayeredConfig.FileProgram

variable {sure : FileOp → Prop} {d d' : Disk}

theorem attempt_completes {action : FileAction} {path : Path} {op : FileOp}
    {result : Except FileFailure op.Value}
    (h : (attempt action path op).run.Completes sure d result d') :
    ∃ answer : op.Answer, d.Attempt op answer d' ∧ (sure op → d.perform op = (answer, d')) ∧
      result = answer.mapError (.of action path) := by
  change (FileProgram.call op >>= _ : FileProgram _).Completes sure d result d' at h
  obtain ⟨answer, d₁, hcall, hrest⟩ := completes_bind.1 h
  obtain ⟨hattempt, hsure⟩ := completes_call.1 hcall
  cases answer with
  | error e =>
    obtain ⟨rfl, rfl⟩ := completes_pure.1 hrest
    exact ⟨.error e, hattempt, hsure, rfl⟩
  | ok value =>
    obtain ⟨rfl, rfl⟩ := completes_pure.1 hrest
    exact ⟨.ok value, hattempt, hsure, rfl⟩

end Access

end LayeredConfig
