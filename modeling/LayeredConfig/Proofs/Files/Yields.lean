import LayeredConfig.Files.Access
import LayeredConfig.Files.Disk

/-!
# What a file program can answer

Without a look at any disk a file program may be given every answer to each of its operations.
What it yields then covers what it yields on a disk, also on one that others change meanwhile.
-/

namespace LayeredConfig.FileProgram

variable {α β ε : Type}

/-- Some answers to the operations of a program lead to this result. -/
inductive Yields : FileProgram α → α → Prop
  | done (a : α) : Yields (.done a) a
  | step {op : FileOp} {next : op.Answer → FileProgram α} {a : α} (answer : op.Answer)
      (h : Yields (next answer) a) : Yields (.step op next) a

theorem yields_pure {a b : α} : (pure a : FileProgram α).Yields b ↔ a = b := by
  constructor
  · intro h
    cases h
    rfl
  · rintro rfl
    exact .done a

theorem yields_bind {p : FileProgram α} {f : α → FileProgram β} {b : β} :
    (p >>= f).Yields b ↔ ∃ a, p.Yields a ∧ (f a).Yields b := by
  constructor
  · intro h
    induction p with
    | done a => exact ⟨a, .done a, h⟩
    | step op next ih =>
      cases h with
      | step answer h =>
        obtain ⟨a, ha, hb⟩ := ih answer h
        exact ⟨a, .step answer ha, hb⟩
  · rintro ⟨a, ha, hb⟩
    induction ha with
    | done a => exact hb
    | step answer _ ih => exact .step answer (ih hb)

theorem yields_bind_ok {p : ExceptT ε FileProgram α} {f : α → ExceptT ε FileProgram β} {b : β} :
    (p >>= f).run.Yields (.ok b) ↔ ∃ a, p.run.Yields (.ok a) ∧ (f a).run.Yields (.ok b) := by
  rw [ExceptT.run_bind, yields_bind]
  constructor
  · rintro ⟨result, hp, hf⟩
    cases result with
    | error e =>
      have heq := yields_pure.1 hf
      cases heq
    | ok a => exact ⟨a, hp, hf⟩
  · rintro ⟨a, hp, hf⟩
    exact ⟨.ok a, hp, hf⟩

theorem yields_call {op : FileOp} (answer : op.Answer) : (call op).Yields answer :=
  .step answer (.done answer)

/-- What a program comes to on a disk is among what it can come to. -/
theorem yields_run (p : FileProgram α) (d : Disk) : p.Yields (p.run d).1 := by
  induction p generalizing d with
  | done a => exact .done a
  | step op next ih => exact .step (d.perform op).1 (ih _ _)

end LayeredConfig.FileProgram

namespace LayeredConfig.Access

open LayeredConfig.FileProgram

theorem yields_attempt (action : FileAction) (path : Path) (op : FileOp) (value : op.Value) :
    (attempt action path op).run.Yields (.ok value) :=
  yields_bind.2 ⟨.ok value, yields_call _, yields_pure.2 rfl⟩

theorem yields_checkDirectory (path : Path) : (checkDirectory path).run.Yields (.ok ()) := by
  change (checkDirectories path.ancestors).Yields _
  rw [Path.ancestors]
  split
  · exact yields_bind.2 ⟨.ok .directory, yields_call _, yields_pure.2 rfl⟩
  · exact yields_bind.2 ⟨.ok .directory, yields_call _, yields_pure.2 rfl⟩

theorem yields_createDirectories (paths : List Path) : (createDirectories paths).Yields (.ok ()) := by
  cases paths with
  | nil => exact .done _
  | cons path above =>
    rw [createDirectories]
    split
    · exact .done _
    · exact yields_bind.2 ⟨.ok (), yields_call _, yields_pure.2 rfl⟩

/-- A file can always be written, as far as the program is concerned. -/
theorem yields_writeText (path : Path) (contents : String) :
    (writeText path contents).run.Yields (.ok ()) := by
  refine yields_bind_ok.2 ⟨(), yields_checkDirectory path.directory, ?_⟩
  refine yields_bind_ok.2 ⟨.ok (), ?_, ?_⟩
  · exact yields_bind.2 ⟨.ok (), yields_createDirectories _, yields_pure.2 rfl⟩
  refine yields_bind_ok.2 ⟨path, yields_attempt _ _ (.createTemporary _) path, ?_⟩
  refine yields_bind.2 ⟨.ok (), ?_, yields_pure.2 rfl⟩
  exact yields_bind_ok.2 ⟨(), yields_attempt _ _ (.write _ _) (), yields_attempt _ _ (.rename _ _) ()⟩

end LayeredConfig.Access
