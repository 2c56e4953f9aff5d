import LayeredConfig.Files.Error

/-!
# File programs

A file program is a tree of single file operations: each step names one operation and goes on
with its answer. Programs say what is done to files and in which order, and nothing about how an
operation is carried out, so that one program runs on a model of a disk and on a real one.
-/

namespace LayeredConfig

inductive FileKind where
  | directory
  | file (executable : Bool)
  | link
deriving DecidableEq, Repr

inductive FileOp where
  /-- The kind of what a path leads to through links. -/
  | kind (path : Path)
  /-- The kind of the entry itself. -/
  | entryKind (path : Path)
  /-- Where a path leads to through links, as a path without links. -/
  | locate (path : Path)
  | read (path : Path)
  /-- The names in a directory. -/
  | list (directory : Path)
  | createDirectory (path : Path)
  /-- A new empty file. -/
  | create (path : Path)
  /-- A new empty file under a name of its own. -/
  | createTemporary (directory : Path)
  | write (path : Path) (contents : ByteArray)
  | rename (source target : Path)
  | remove (path : Path)

/-- What an operation answers when it succeeds. -/
def FileOp.Value : FileOp → Type
  | kind _ => FileKind
  | entryKind _ => FileKind
  | locate _ => Path
  | read _ => ByteArray
  | list _ => List String
  | createDirectory _ => Unit
  | create _ => Unit
  | createTemporary _ => Path
  | write _ _ => Unit
  | rename _ _ => Unit
  | remove _ => Unit

abbrev FileOp.Answer (op : FileOp) : Type :=
  Except FileError op.Value

inductive FileProgram (α : Type) where
  | done (result : α)
  | step (op : FileOp) (next : op.Answer → FileProgram α)

namespace FileProgram

variable {α β γ : Type}

def bind (p : FileProgram α) (f : α → FileProgram β) : FileProgram β :=
  match p with
  | done a => f a
  | step op next => step op fun answer => (next answer).bind f

instance : Monad FileProgram where
  pure := done
  bind := bind

theorem bind_done (p : FileProgram α) : p.bind done = p := by
  induction p with
  | done a => rfl
  | step op next ih => exact congrArg (step op) (funext ih)

theorem bind_bind (p : FileProgram α) (f : α → FileProgram β) (g : β → FileProgram γ) :
    (p.bind f).bind g = p.bind fun a => (f a).bind g := by
  induction p with
  | done a => rfl
  | step op next ih => exact congrArg (step op) (funext ih)

instance : LawfulMonad FileProgram :=
  LawfulMonad.mk' _ bind_done (fun _ _ => rfl) bind_bind

/-- One operation and its answer. -/
def call (op : FileOp) : FileProgram op.Answer :=
  step op done

/-- Carries out every operation of a program in a monad. -/
def interpret {m : Type → Type} [Monad m] (perform : (op : FileOp) → m op.Answer) :
    FileProgram α → m α
  | done a => pure a
  | step op next => do interpret perform (next (← perform op))

end FileProgram

end LayeredConfig
