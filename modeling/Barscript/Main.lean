import Barscript.Command.Run

/-!
# The program

The host of the operating system, and the entry point.
-/

namespace Barscript

open Barscript.Command

/-- Why an access to a file failed. -/
def fileError : IO.Error → FileError
  | .noFileOrDirectory .. => .missing
  | cause => .other (toString cause)

/-- The result of an access to a file. -/
def attempt {α : Type} (action : IO α) : IO (Except FileError α) := do
  match ← action.toBaseIO with
  | .ok value => return .ok value
  | .error cause => return .error (fileError cause)

/-- The host that works on the disk and the console. -/
def systemHost : Host IO where
  read path := attempt (IO.FS.readBinFile path)
  write path content := attempt (IO.FS.writeFile path content)
  result text := IO.print text
  remark text := IO.eprint text

end Barscript

/-- Runs the command line. -/
def main (words : List String) : IO UInt32 := do
  let code ← Barscript.Command.run Barscript.systemHost words
  return code.toUInt32
