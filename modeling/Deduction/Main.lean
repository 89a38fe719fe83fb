import Deduction.Command.Line

/-!
# The program

Runs the commands on the file system and shows what they have to show.
-/

namespace Deduction

/-- A file error of the system. -/
def FileError.ofSystem : IO.Error → FileError
  | .noFileOrDirectory .. => .notFound
  | .inappropriateType _ code _ => if code = 21 then .isDirectory else .notDirectory
  | .alreadyExists .. => .alreadyExists
  | e => .other (toString e)

/-- Runs an action that may fail at a file. -/
def trySystem {α : Type} (action : IO α) : IO (Except FileError α) := do
  try return .ok (← action) catch e => return .error (FileError.ofSystem e)

instance : FileAccess IO where
  workingDirectory := do return toString (← IO.FS.realPath (← IO.currentDir))
  isPresent path := do return (← trySystem (IO.FS.realPath path)).toBool
  readText path := do
    match ← trySystem (IO.FS.readBinFile path) with
    | .error e => return .error e
    | .ok bytes => match String.fromUTF8? bytes with
      | some text => return .ok text
      | none => return .error .invalidText
  makeDirectory path := trySystem (IO.FS.createDir path)
  writeText path text := trySystem (IO.FS.writeFile path text)

end Deduction

/-- Runs the command that the arguments ask for. -/
def main (arguments : List String) : IO UInt32 := do
  let outcome ← (Deduction.Command.runArguments arguments : IO Deduction.Outcome)
  IO.print outcome.stdout
  IO.eprint outcome.stderr
  return outcome.exit.toUInt32
