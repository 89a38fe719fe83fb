/-!
# Paths

Paths are texts with a slash between their components.  These functions work on the text alone, so that a path is shown
the way it was put together.
-/

namespace Deduction

namespace Path

/-- The reversed characters of a path without slashes and `.` components at its end.  The slash of the root stays. -/
def trimEnd : List Char → List Char
  | ['/'] => ['/']
  | '/' :: rest => trimEnd rest
  | '.' :: '/' :: rest => trimEnd ('/' :: rest)
  | text => text

/-- The path of the directory that holds what `path` names.  There is none for the root and for the empty path. -/
def parent? (path : String) : Option String :=
  match trimEnd path.toList.reverse with
  | [] => none
  | ['/'] => none
  | text => some (String.ofList (trimEnd (text.dropWhile (· != '/'))).reverse)

/-- A path within a directory.  A path from the root stays what it is. -/
def join (dir path : String) : String :=
  match path.toList, dir.toList.getLast? with
  | '/' :: _, _ => path
  | _, none => path
  | _, some '/' => dir ++ path
  | _, some _ => dir ++ "/" ++ path

/-- A path and the directories around it, innermost first, at most so many. -/
def upward : Nat → String → List String
  | 0, _ => []
  | limit + 1, path => path :: match parent? path with
    | some dir => upward limit dir
    | none => []

/-- A path and the directories around it, innermost first. -/
def ancestors (path : String) : List String := upward (path.length + 1) path

/-- The components of a path, as the texts between its slashes. -/
def components (path : String) : List String := (path.toList.splitOn '/').map String.ofList

end Path

end Deduction
