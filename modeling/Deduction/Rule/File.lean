import Deduction.Rule.Definition
import Deduction.Toml.Decode

/-!
# Rule files

A rule file is a TOML document with one table `[[rule]]` for every form of a rule.  The whole document is decoded into
definitions before any of them is examined.
-/

namespace Deduction

/-- A level by its name. -/
def Level.ofName? : String → Option Level
  | "object" => some .object
  | "meta" => some .metaLevel
  | _ => none

/-- The level that a value names: a string, or a table that gives the name an empty value. -/
def Level.ofToml? : Toml.Value → Option Level
  | .string name => ofName? name
  | .table _ [(name, value)] => if value.isEmpty then ofName? name else none
  | _ => none

/-- A premise is written as its pattern, or as a table with its level and its pattern.  Further keys are ignored. -/
def PremiseDefinition.ofToml? : Toml.Value → Option PremiseDefinition
  | .string pattern => some ⟨none, pattern⟩
  | .table _ entries => do
    let fields : Toml.Entries := entries
    let level ← fields.required? "role" fun v => v.string? >>= Level.ofName?
    let pattern ← fields.required? "pattern" Toml.Value.string?
    return ⟨some level, pattern⟩
  | _ => none

/-- The definition that a value describes. -/
def Definition.ofToml? (value : Toml.Value) : Option Definition := do
  let fields ← value.fields? ["name", "kind", "arity", "premises", "conclusion", "repeat_last_premise"]
  return {
    name := ← fields.required? "name" Toml.Value.string?
    level := ← fields.required? "kind" Level.ofToml?
    arity := ← fields.required? "arity" Toml.Value.natural?
    premises := ← fields.withDefault? "premises" (·.listOf? PremiseDefinition.ofToml?) []
    conclusion := ← fields.required? "conclusion" Toml.Value.string?
    repeatsLast := ← fields.withDefault? "repeat_last_premise" Toml.Value.boolean? false }

/-- The definitions of a rule file. -/
def definitionsOfToml? (text : String) : Option (List Definition) := do
  let entries ← Toml.parse text
  let fields ← (Toml.Value.table .header entries).fields? ["rule"]
  fields.withDefault? "rule" (·.listOf? Definition.ofToml?) []

/-- Why a rule file cannot be used. -/
inductive LibraryError where
  | unreadable (path : String)
  | malformed
  | definition (error : DefinitionError)
  deriving Repr, DecidableEq

/-- The wording of a library error. -/
def LibraryError.message : LibraryError → String
  | .unreadable path => s!"could not read rule library `{path}`"
  | .malformed => "invalid rule library: TOML parse error"
  | .definition error => error.message

/-- The library that the text of a rule file describes. -/
def Library.parse (text : String) : Except LibraryError Library :=
  match definitionsOfToml? text with
  | none => .error .malformed
  | some definitions => (ofDefinitions definitions).mapError .definition

end Deduction
