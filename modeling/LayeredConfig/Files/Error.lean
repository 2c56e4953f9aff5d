import LayeredConfig.Files.Path

/-!
# Failures of file operations

The ways in which the operating system refuses a single step, and what a step was meant to do
when it is reported.
-/

namespace LayeredConfig

inductive FileError where
  | notFound
  | execFormat
  | permissionDenied
  | busy
  | alreadyExists
  | notDirectory
  | isDirectory
  | invalidArgument
  | nameTooLong
  | notEmpty
  | tooManyLinks
  | other (code : Nat) (text : String)
  /-- The contents are no text. -/
  | invalidText
  | nulInName
  /-- Something stands in the way at this path. -/
  | occupied (path : Path)
deriving DecidableEq, Repr

namespace FileError

def text : FileError → String
  | notFound => "No such file or directory"
  | execFormat => "Exec format error"
  | permissionDenied => "Permission denied"
  | busy => "Device or resource busy"
  | alreadyExists => "File exists"
  | notDirectory => "Not a directory"
  | isDirectory => "Is a directory"
  | invalidArgument => "Invalid argument"
  | nameTooLong => "File name too long"
  | notEmpty => "Directory not empty"
  | tooManyLinks => "Too many levels of symbolic links"
  | other _ text => text
  | invalidText => "stream did not contain valid UTF-8"
  | nulInName => "file name contained an unexpected NUL byte"
  | occupied path => path.text ++ " already exists"

/-- The error number of the operating system, if the system refused a step. -/
def code? : FileError → Option Nat
  | notFound => some 2
  | execFormat => some 8
  | permissionDenied => some 13
  | busy => some 16
  | alreadyExists => some 17
  | notDirectory => some 20
  | isDirectory => some 21
  | invalidArgument => some 22
  | nameTooLong => some 36
  | notEmpty => some 39
  | tooManyLinks => some 40
  | other code _ => some code
  | invalidText => none
  | nulInName => none
  | occupied _ => none

def message (e : FileError) : String :=
  match e.code? with
  | some code => e.text ++ " (os error " ++ toString code ++ ")"
  | none => e.text

/-- The failures that have an error number of their own. -/
def numbered : List FileError :=
  [notFound, execFormat, permissionDenied, busy, alreadyExists, notDirectory, isDirectory,
   invalidArgument, nameTooLong, notEmpty, tooManyLinks]

/-- The failure with an error number of the operating system. -/
def ofCode (code : Nat) (text : String) : FileError :=
  (numbered.find? (·.code? == some code)).getD (other code text)

end FileError

/-- What was being done to a path. -/
inductive FileAction where
  | read
  | createDirectory
  | createTemporary
  | write
  | replace
  | backUp
  | readWorkingDirectory
deriving DecidableEq, Repr

def FileAction.label : FileAction → String
  | read => "read"
  | createDirectory => "create directory"
  | createTemporary => "create temp file in"
  | write => "write"
  | replace => "replace"
  | backUp => "back up"
  | readWorkingDirectory => "read working directory"

/-- Why a whole file could not be read, written or backed up. -/
inductive FileFailure where
  | notExist (path : Path)
  | failed (action : FileAction) (path : Path) (cause : FileError)
  /-- Something that is no directory stands where a directory is needed. -/
  | notDirectory (path : Path)
deriving DecidableEq, Repr

namespace FileFailure

/-- A missing file is a failure of its own, whatever was being done. -/
def of (action : FileAction) (path : Path) (cause : FileError) : FileFailure :=
  if cause = .notFound then .notExist path else .failed action path cause

def message : FileFailure → String
  | notExist path => "config file does not exist: " ++ path.text
  | failed action path cause =>
    "failed to " ++ action.label ++ " " ++ path.text ++ ": " ++ cause.message
  | notDirectory path => path.text ++ " is not a directory; remove or rename it"

end FileFailure

end LayeredConfig
