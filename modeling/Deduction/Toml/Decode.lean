import Deduction.Toml.Document

/-!
# Decoding TOML values

Readers of TOML documents take values apart with these functions, each of which yields nothing where the value is of
another kind.  A record is written as a table, or as an array of its fields in order.
-/

namespace Deduction

namespace Toml

namespace Value

/-- A string. -/
def string? : Value → Option String
  | .string s => some s
  | _ => none

/-- A truth value. -/
def boolean? : Value → Option Bool
  | .boolean b => some b
  | _ => none

/-- An integer that is not negative. -/
def natural? : Value → Option Nat
  | .integer (.ofNat n) => some n
  | _ => none

/-- An array all of whose items are decoded by `item`. -/
def listOf? {α : Type} (item : Value → Option α) : Value → Option (List α)
  | .array _ items => items.mapM item
  | _ => none

/-- An array or a table with nothing in it. -/
def isEmpty : Value → Bool
  | .array _ [] => true
  | .table _ [] => true
  | _ => false

/-- The fields of a record: a table without keys of other names, or an array of values for the names in order. -/
def fields? (names : List String) : Value → Option Entries
  | .table _ entries => if entries.all fun e => names.contains e.1 then some entries else none
  | .array _ items => some (names.zip items)
  | _ => none

end Value

namespace Entries

variable {α : Type}

/-- A field that has to be present. -/
def required? (entries : Entries) (key : String) (decode : Value → Option α) : Option α := entries.get? key >>= decode

/-- A field that may be missing. -/
def withDefault? (entries : Entries) (key : String) (decode : Value → Option α) (default : α) : Option α :=
  match entries.get? key with
  | some v => decode v
  | none => some default

end Entries

end Toml

end Deduction
