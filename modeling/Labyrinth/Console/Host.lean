/-!
# Hosts

The commands reach files and the terminal only through a **host**. The real machine is a host, and
so is a desk, in which whole sessions can be played without any effect.
-/

namespace Labyrinth.Console

/-- Why a file cannot be read. -/
inductive FileError
  | notFound
  | isDirectory
  | notDirectory
  | nameTooLong
  /-- The path holds a NUL. -/
  | invalidName
  /-- The file's bytes are no text. -/
  | notText
  /-- Another reason, in words. -/
  | other (reason : String)
  deriving DecidableEq, Repr

namespace FileError

/-- The wording of a reason. -/
def message : FileError → String
  | notFound => "No such file or directory (os error 2)"
  | isDirectory => "Is a directory (os error 21)"
  | notDirectory => "Not a directory (os error 20)"
  | nameTooLong => "File name too long (os error 36)"
  | invalidName => "file name contained an unexpected NUL byte"
  | notText => "stream did not contain valid UTF-8"
  | other reason => reason

/-- Whether the path leads to nothing at all. -/
def isMissing : FileError → Bool
  | notFound | notDirectory | nameTooLong | invalidName => true
  | isDirectory | notText | other _ => false

end FileError

/-- What commands can do. -/
structure Host (m : Type → Type) where
  /-- Reads a file. -/
  read : String → m (Except FileError String)
  /-- Writes a file, if that is possible. -/
  write : (path text : String) → m Unit
  /-- Prints a text. -/
  print : String → m Unit
  /-- Prints a text about an error. -/
  warn : String → m Unit
  /-- Waits for a number of nanoseconds. -/
  wait : Nat → m Unit

end Labyrinth.Console
