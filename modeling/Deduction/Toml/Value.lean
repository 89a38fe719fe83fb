/-!
# TOML values

The values of a TOML document.  A table remembers how it came about, because that decides what may still be added to it
further down in the document.

* `Value.insert`: a key with its value, below a dotted path.
* `Value.openTable`, `Value.openElement`: the headers `[path]` and `[[path]]`.
-/

namespace Deduction

namespace Toml

/-- How a table came about. -/
inductive Form where
  /-- As a value written in one piece, to which nothing is added. -/
  | inline
  /-- As part of the path of a header. -/
  | implicit
  /-- As part of a dotted key. -/
  | dotted
  /-- By a header of its own. -/
  | header
  deriving Repr, DecidableEq

/-- A TOML value.  Floats and times are kept as they are written.  An array is `extensible` if headers made it. -/
inductive Value where
  | string (s : String)
  | integer (n : Int)
  | boolean (b : Bool)
  | float (text : List Char)
  | time (text : List Char)
  | array (extensible : Bool) (items : List Value)
  | table (form : Form) (entries : List (String × Value))

/-- The keys of a table with their values. -/
abbrev Entries := List (String × Value)

namespace Entries

/-- The value of a key. -/
def get? (entries : Entries) (key : String) : Option Value := entries.lookup key

/-- Replaces the value of a key. -/
def set (entries : Entries) (key : String) (value : Value) : Entries :=
  entries.map fun e => if e.1 == key then (key, value) else e

/-- Runs `f` on the table below the path, creating the tables on the way in the given form.  It goes into the last
element of an array that headers made. -/
def update (form : Form) (f : Form → Entries → Option Entries) : List String → Form → Entries → Option Entries
  | [], reached, entries => f reached entries
  | key :: path, _, entries =>
    match entries.get? key with
    | none => do
      let sub ← update form f path form []
      return entries ++ [(key, .table form sub)]
    | some (.table found sub) =>
      if found = .inline ∨ (form = .dotted ∧ found = .header) then none
      else do
        let sub ← update form f path found sub
        return entries.set key (.table found sub)
    | some (.array true items) =>
      match items.getLast? with
      | some (.table found sub) => do
        let sub ← update form f path found sub
        return entries.set key (.array true (items.dropLast ++ [.table found sub]))
      | _ => none
    | some _ => none

/-- Adds a key with its value below a dotted path.  A dotted path leads only into tables that dotted keys made, and a
key is given once. -/
def insert (path : List String) (key : String) (value : Value) (entries : Entries) : Option Entries :=
  update .dotted
    (fun reached entries =>
      if (path ≠ [] ∧ reached ≠ .dotted) ∨ (entries.get? key).isSome then none else some (entries ++ [(key, value)]))
    path .header entries

/-- Opens a table by its header.  Only a table that was implied by other headers may exist already. -/
def openTable (path : List String) (key : String) (entries : Entries) : Option Entries :=
  update .implicit
    (fun _ entries => match entries.get? key with
      | none => some (entries ++ [(key, .table .header [])])
      | some (.table .implicit sub) => some (entries.set key (.table .header sub))
      | some _ => none)
    path .header entries

/-- Opens a further element of an array of tables by its header. -/
def openElement (path : List String) (key : String) (entries : Entries) : Option Entries :=
  update .implicit
    (fun _ entries => match entries.get? key with
      | none => some (entries ++ [(key, .array true [.table .header []])])
      | some (.array true items) => some (entries.set key (.array true (items ++ [.table .header []])))
      | some _ => none)
    path .header entries

end Entries

end Toml

end Deduction
