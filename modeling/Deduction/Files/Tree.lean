import Deduction.Files.Access
import Deduction.Files.Path

/-!
# File trees in memory

A tree of directories and files, with a working directory.  Paths are followed component by component: each but the last
has to be a directory, `.` stays where it is, and `..` goes up, except at the root.
-/

namespace Deduction

/-- What a tree holds at a place. -/
inductive FileNode where
  | directory
  | file (bytes : List UInt8)
  deriving DecidableEq

/-- A tree of files.  Places are lists of names from the root, which is a directory. -/
structure FileTree where
  nodes : List (List String × FileNode)
  working : List String

namespace FileTree

/-- What is at a place. -/
def node? (t : FileTree) (place : List String) : Option FileNode :=
  if place.isEmpty then some .directory else t.nodes.lookup place

/-- Puts something at a place, instead of what was there. -/
def put (t : FileTree) (place : List String) (node : FileNode) : FileTree :=
  { t with nodes := (place, node) :: t.nodes.filter fun e => e.1 != place }

/-- Adds a directory and those around it. -/
def addDirectory (t : FileTree) (place : List String) : FileTree :=
  (List.range place.length).foldl
    (fun t i =>
      let around := place.take (i + 1)
      if (t.node? around).isSome then t else t.put around .directory)
    t

/-- Adds a file and the directories around it. -/
def addFile (t : FileTree) (place : List String) (bytes : List UInt8) : FileTree :=
  (t.addDirectory place.dropLast).put place (.file bytes)

/-- The path of a place. -/
def pathOf (place : List String) : String := "/" ++ "/".intercalate place

/-- Follows components from a place.  What the last one names need not exist. -/
def follow (t : FileTree) : List String → List String → Except FileError (List String)
  | place, [] => .ok place
  | place, name :: rest =>
    match t.node? place with
    | none => .error .notFound
    | some (.file _) => .error .notDirectory
    | some .directory =>
      if name = "" ∨ name = "." then follow t place rest
      else if name = ".." then follow t place.dropLast rest
      else follow t (place ++ [name]) rest

/-- The place that a path names. -/
def locate (t : FileTree) (path : String) : Except FileError (List String) :=
  if path.isEmpty then .error .notFound
  else if path.startsWith "/" then t.follow [] (Path.components path)
  else t.follow t.working (Path.components path)

/-- What a path names. -/
def lookup (t : FileTree) (path : String) : Except FileError FileNode := do
  match t.node? (← t.locate path) with
  | some node => return node
  | none => throw .notFound

/-- The text of a file. -/
def readText (t : FileTree) (path : String) : Except FileError String := do
  match ← t.lookup path with
  | .directory => throw .isDirectory
  | .file bytes => match String.fromUTF8? ⟨bytes.toArray⟩ with
    | some text => return text
    | none => throw .invalidText

/-- Makes a directory.  Slashes at the end of its path do not matter. -/
def makeDirectory (t : FileTree) (path : String) : Except FileError FileTree := do
  let trimmed := String.ofList (path.toList.reverse.dropWhile (· == '/')).reverse
  let place ← t.locate trimmed
  if (t.node? place).isSome then throw .alreadyExists else return t.put place .directory

/-- Writes a file. -/
def writeText (t : FileTree) (path text : String) : Except FileError FileTree := do
  let place ← t.locate path
  if t.node? place = some .directory then throw .isDirectory
  else return t.put place (.file text.toUTF8.data.toList)

/-- The files of `t` that `before` does not hold in the same form, with their places. -/
def filesSince (t before : FileTree) : List (List String × List UInt8) :=
  t.nodes.filterMap fun (place, node) => match node with
    | .directory => none
    | .file bytes => if before.node? place = some (.file bytes) then none else some (place, bytes)

instance : FileAccess (StateM FileTree) where
  workingDirectory := do return pathOf (← get).working
  isPresent path := do return ((← get).lookup path).toBool
  readText path := do return (← get).readText path
  makeDirectory path := do
    match (← get).makeDirectory path with
    | .ok t => set t; return .ok ()
    | .error e => return .error e
  writeText path text := do
    match (← get).writeText path text with
    | .ok t => set t; return .ok ()
    | .error e => return .error e

end FileTree

end Deduction
