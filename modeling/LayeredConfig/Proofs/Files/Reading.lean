import LayeredConfig.Files.Access
import LayeredConfig.Files.Disk
import LayeredConfig.Proofs.Outcome

/-!
# Reading leaves the disk alone

A program that may fail goes on with the result of its first step on the disk behind that step.
Looking at files and reading them does not change a disk, and what is read is what the walk along
the path comes to.
-/

namespace LayeredConfig

namespace FileProgram

variable {α β ε : Type} {x : ExceptT ε FileProgram α} {d d' : Disk}

theorem run_bind_ok {a : α} (h : x.run.run d = (.ok a, d')) (f : α → ExceptT ε FileProgram β) :
    (x >>= f).run.run d = (f a).run.run d' := by
  rw [ExceptT.run_bind, run_bind, h]

theorem run_bind_error {e : ε} (h : x.run.run d = (.error e, d'))
    (f : α → ExceptT ε FileProgram β) : (x >>= f).run.run d = (.error e, d') := by
  rw [ExceptT.run_bind, run_bind, h]
  rfl

/-- A program of two parts that succeeds, on the disk behind its first part. -/
theorem run_bind_eq_ok {f : α → ExceptT ε FileProgram β} {b : β}
    (h : (x >>= f).run.run d = (.ok b, d')) :
    ∃ a d₁, x.run.run d = (.ok a, d₁) ∧ (f a).run.run d₁ = (.ok b, d') := by
  rcases hx : x.run.run d with ⟨_ | a, d₁⟩
  · rw [run_bind_error hx] at h
    cases h
  · rw [run_bind_ok hx] at h
    exact ⟨a, d₁, rfl, h⟩

end FileProgram

namespace Disk

variable {d : Disk} {p : Path}

theorem resolve_of_walk {follow : Bool} {place : Except FileError Place}
    (hcheck : checkPath p = .ok ())
    (hwalk : d.walk follow maxLinks (d.start p) p.steps = place) : d.resolve follow p = place := by
  rw [resolve, hcheck, ← hwalk]
  rfl

theorem read_of_walk {location : Location} {contents : ByteArray} {executable : Bool}
    (hcheck : checkPath p = .ok ())
    (hwalk : d.walk true maxLinks (d.start p) p.steps =
      .ok (.found location (.file contents executable))) : d.read p = .ok contents := by
  rw [read, lookup, resolve_of_walk hcheck hwalk]
  rfl

theorem read_of_walk_error {e : FileError} (hcheck : checkPath p = .ok ())
    (hwalk : d.walk true maxLinks (d.start p) p.steps = .error e) : d.read p = .error e := by
  rw [read, lookup, resolve_of_walk hcheck hwalk]
  rfl

theorem read_of_walk_free {directory : Location} {name : String} (hcheck : checkPath p = .ok ())
    (hwalk : d.walk true maxLinks (d.start p) p.steps = .ok (.free directory name)) :
    d.read p = .error .notFound := by
  rw [read, lookup, resolve_of_walk hcheck hwalk]
  rfl

end Disk

namespace Access

open LayeredConfig.FileProgram

theorem run_checkDirectories (paths : List Path) (d : Disk) :
    ((checkDirectories paths).run d).2 = d := by
  induction paths with
  | nil => rfl
  | cons path rest ih =>
    rw [checkDirectories, run_bind, run_call]
    change (FileProgram.run _ d).2 = d
    split
    · rfl
    · rfl
    · exact ih

theorem run_checkDirectory (directory : Path) (d : Disk) :
    ((checkDirectory directory).run.run d).2 = d :=
  run_checkDirectories _ d

theorem run_attempt_read (path : Path) (d : Disk) :
    ((attempt .read path (.read path)).run.run d).2 = d := by
  change ((FileProgram.call (.read path) >>= _ : FileProgram _).run d).2 = d
  rw [run_bind, run_call]
  change (FileProgram.run _ d).2 = d
  split
  · rfl
  · rfl

/-- Reading a text does not change the disk. -/
theorem run_readText (path : Path) (d : Disk) : ((readText path).run.run d).2 = d := by
  cases hcheck : (checkDirectory path.directory).run.run d with
  | mk result d₁ =>
    obtain rfl : d₁ = d := by
      rw [← run_checkDirectory path.directory d, hcheck]
    cases result with
    | error e => rw [readText, run_bind_error hcheck]
    | ok =>
      rw [readText, run_bind_ok hcheck]
      cases hread : (attempt .read path (.read path)).run.run d₁ with
      | mk result d₂ =>
        obtain rfl : d₂ = d₁ := by
          rw [← run_attempt_read path d₁, hread]
        cases result with
        | error e => rw [run_bind_error hread]
        | ok bytes =>
          rw [run_bind_ok hread]
          split
          · rfl
          · rfl

variable {d : Disk} {path : Path}

theorem run_attempt {op : FileOp} {action : FileAction} {result : op.Answer} {d' : Disk}
    (h : d.perform op = (result, d')) :
    (attempt action path op).run.run d = (result.mapError (.of action path), d') := by
  change ((FileProgram.call op >>= _ : FileProgram _).run d) = _
  rw [run_bind, run_call, h]
  cases result with
  | error e => rfl
  | ok value => rfl

theorem attempt_eq_ok {op : FileOp} {action : FileAction} {value : op.Value} {d' : Disk}
    (h : (attempt action path op).run.run d = (.ok value, d')) : d.perform op = (.ok value, d') := by
  rcases hperform : d.perform op with ⟨result, d₁⟩
  rw [run_attempt hperform] at h
  obtain ⟨hvalue, rfl⟩ := Prod.mk.inj h
  rw [mapError_eq_ok_iff.1 hvalue]

/-- The text that the octets of a file stand for. -/
def decoded (path : Path) (bytes : ByteArray) : Except FileFailure String :=
  match String.fromUTF8? bytes with
  | some text => .ok text
  | none => .error (.failed .read path .invalidText)

/-- What is read depends on the directories above the file and on the file. -/
theorem run_readText_fst (path : Path) (d : Disk) :
    ((readText path).run.run d).1 = ((checkDirectory path.directory).run.run d).1 >>= fun _ ↦
      (d.read path).mapError (FileFailure.of .read path) >>= decoded path := by
  rcases hcheck : (checkDirectory path.directory).run.run d with ⟨result, d₁⟩
  obtain rfl : d₁ = d := by
    rw [← run_checkDirectory path.directory d, hcheck]
  cases result with
  | error e =>
    rw [readText, run_bind_error hcheck]
    rfl
  | ok =>
    have hperform : d₁.perform (.read path) = (d₁.read path, d₁) := rfl
    rw [readText, run_bind_ok hcheck]
    cases hread : d₁.read path with
    | error e =>
      rw [hread] at hperform
      rw [run_bind_error (run_attempt hperform)]
      rfl
    | ok bytes =>
      rw [hread] at hperform
      rw [run_bind_ok (run_attempt hperform)]
      change _ = decoded path bytes
      unfold decoded
      cases String.fromUTF8? bytes <;> rfl

theorem run_readText_of_read {bytes : ByteArray} {text : String}
    (hcheck : (checkDirectory path.directory).run.run d = (.ok (), d))
    (hread : d.read path = .ok bytes) (htext : String.fromUTF8? bytes = some text) :
    ((readText path).run.run d).1 = .ok text := by
  rw [run_readText_fst, hcheck, hread]
  change decoded path bytes = _
  rw [decoded, htext]

theorem readText_eq_ok {text : String} (h : ((readText path).run.run d).1 = .ok text) :
    ((checkDirectory path.directory).run.run d).1 = .ok () ∧
      ∃ bytes, d.read path = .ok bytes ∧ String.fromUTF8? bytes = some text := by
  rw [run_readText_fst] at h
  obtain ⟨⟨⟩, hcheck, h⟩ := bind_eq_ok_iff.1 h
  obtain ⟨bytes, hread, h⟩ := bind_eq_ok_iff.1 h
  refine ⟨hcheck, bytes, mapError_eq_ok_iff.1 hread, ?_⟩
  unfold decoded at h
  split at h
  · rename_i htext
    rw [htext, Except.ok.inj h]
  · cases h

theorem run_readText_of_notFound
    (hcheck : (checkDirectory path.directory).run.run d = (.ok (), d))
    (hread : d.read path = .error .notFound) :
    ((readText path).run.run d).1 = .error (.notExist path) := by
  rw [run_readText_fst, hcheck, hread]
  rfl

end Access

end LayeredConfig
