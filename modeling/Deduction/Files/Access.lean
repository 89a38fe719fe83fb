/-!
# Access to files

The commands read and write files through `FileAccess`, so that they run on a file system and on a tree in memory alike.
-/

namespace Deduction

/-- Why a file cannot be accessed. -/
inductive FileError where
  | notFound
  | notDirectory
  | isDirectory
  | alreadyExists
  | invalidText
  | other (message : String)
  deriving Repr, DecidableEq

/-- The wording of a file error. -/
def FileError.message : FileError → String
  | .notFound => "No such file or directory (os error 2)"
  | .notDirectory => "Not a directory (os error 20)"
  | .isDirectory => "Is a directory (os error 21)"
  | .alreadyExists => "File exists (os error 17)"
  | .invalidText => "stream did not contain valid UTF-8"
  | .other message => message

/-- What commands do with files. -/
class FileAccess (m : Type → Type) where
  /-- The working directory, as a path from the root. -/
  workingDirectory : m String
  /-- Something has this path. -/
  isPresent : String → m Bool
  /-- The text of a file. -/
  readText : String → m (Except FileError String)
  /-- Makes a directory in one that exists. -/
  makeDirectory : String → m (Except FileError Unit)
  /-- Writes a file, in place of what it held. -/
  writeText : String → String → m (Except FileError Unit)

end Deduction
