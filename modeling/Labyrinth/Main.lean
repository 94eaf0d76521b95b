import Labyrinth.Console.Commands

/-!
# The command line

The program on the real machine: the host that reads and writes its files, and `main`.
-/

namespace Labyrinth.Console

/-- Why the machine could not read a file. -/
def fileError : IO.Error → FileError
  | .noFileOrDirectory .. => .notFound
  | .inappropriateType _ code _ => if code = 21 then .isDirectory else .notDirectory
  | .invalidArgument _ 36 _ => .nameTooLong
  | .permissionDenied _ code reason => .other (reason ++ " (os error " ++ toString code ++ ")")
  | e => .other (toString e)

/-- The real machine. A path with a NUL, which its calls would cut short, does not reach it. -/
def machineHost : Host IO where
  read path := do
    if '\x00' ∈ path.toList then return .error .invalidName
    match ← (do (← IO.FS.Handle.mk path .read).readBinToEnd : IO ByteArray).toBaseIO with
    | .ok bytes => return (String.fromUTF8? bytes).elim (.error .notText) .ok
    | .error e => return .error (fileError e)
  write path text := do
    unless '\x00' ∈ path.toList do
      let _ ← (IO.FS.writeFile path text).toBaseIO
  print text := do
    let stdout ← IO.getStdout
    stdout.putStr text
    stdout.flush
  warn text := IO.eprint text
  wait nanoseconds := IO.sleep (UInt32.ofNat (nanoseconds / 1000000))

end Labyrinth.Console

open Labyrinth Labyrinth.Binary Labyrinth.Console

/-- Carries out a command line, with a seed from the machine's source of randomness. -/
def main (args : List String) : IO UInt32 := do
  let drawn := UInt64.ofNat (ofLittleEndian (← IO.getRandomBytes 8).data.toList)
  let code ← perform machineHost drawn args
  return UInt32.ofNat code
