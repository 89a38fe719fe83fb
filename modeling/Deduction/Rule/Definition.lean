import Deduction.Proof.Grammar
import Deduction.Rule.Library

/-!
# Rule definitions

A definition is a rule as its author writes it, with patterns as texts.  `Definition.toTemplate` reads the patterns and
refuses what could not be used: names that cannot be cited, a wrong arity, patterns for sub-proofs that are no
implications.  `Library.ofDefinitions` stops at the first definition that is refused.
-/

namespace Deduction

/-- The definition of one premise.  Without a level of its own, the premise has that of the rule. -/
structure PremiseDefinition where
  level? : Option Level
  pattern : String
  deriving Repr, DecidableEq

/-- The definition of one form of a rule. -/
structure Definition where
  name : String
  level : Level
  arity : Nat
  premises : List PremiseDefinition
  conclusion : String
  repeatsLast : Bool
  deriving Repr, DecidableEq

/-- Why a definition is refused. -/
inductive DefinitionError where
  | invalidName (name : String)
  | reservedName (name : String)
  | pattern (name text : String) (mismatch : Mismatch)
  | arityMismatch (name : String) (arity premises : Nat)
  | notImplication (name : String) (pattern : Sentence)
  | subproofInObjectRule (name : String)
  | paddingWithoutPremises (name : String)
  deriving Repr, DecidableEq

/-- The wording of a definition error. -/
def DefinitionError.message : DefinitionError → String
  | .invalidName name => s!"`{name}` is not a valid rule name"
  | .reservedName name => s!"`{name}` is reserved and cannot name a rule"
  | .pattern name text mismatch => s!"rule `{name}`: cannot read pattern `{text}`: {mismatch.message}"
  | .arityMismatch name arity premises => s!"rule `{name}` declares arity {arity} but lists {premises} premises"
  | .notImplication name s => s!"rule `{name}`: meta premise `{s.text}` is not an implication"
  | .subproofInObjectRule name => s!"rule `{name}` is an object rule but has a meta premise"
  | .paddingWithoutPremises name => s!"rule `{name}` repeats its last premise but has no premises"

/-- A name that a step can cite. -/
def isRuleName (name : String) : Bool := !name.toList.isEmpty && name.toList.all isRuleChar

/-- The names of premises and assumptions, which name no rule. -/
def isReservedName (name : String) : Bool := name == premiseName || name == assumptionName

namespace Definition

/-- Reads a pattern of the rule. -/
def readPattern (d : Definition) (text : String) : Except DefinitionError Sentence :=
  match Sentence.parsePattern text with
  | .ok s => .ok s
  | .error e => .error (.pattern d.name text e.mismatch)

/-- Reads a premise of the rule. -/
def readPremise (d : Definition) (p : PremiseDefinition) : Except DefinitionError PremisePattern := do
  return ⟨p.level?.getD d.level, ← d.readPattern p.pattern⟩

/-- What is wrong with a premise, if anything: only meta rules take sub-proofs, and those as implications. -/
def premiseFault? (d : Definition) (p : PremisePattern) : Option DefinitionError :=
  match d.level, p.level with
  | .object, .metaLevel => some (.subproofInObjectRule d.name)
  | .metaLevel, .metaLevel => if p.pattern.isImplication then none else some (.notImplication d.name p.pattern)
  | _, .object => none

/-- What is wrong with the name, the arity or the repetition, if anything. -/
def headFault? (d : Definition) : Option DefinitionError :=
  if !isRuleName d.name then some (.invalidName d.name)
  else if isReservedName d.name then some (.reservedName d.name)
  else if d.arity ≠ d.premises.length then some (.arityMismatch d.name d.arity d.premises.length)
  else if d.repeatsLast && d.arity == 0 then some (.paddingWithoutPremises d.name)
  else none

/-- The template that a definition describes. -/
def toTemplate (d : Definition) : Except DefinitionError Template := do
  if let some fault := d.headFault? then throw fault
  let premises ← d.premises.mapM d.readPremise
  let conclusion ← d.readPattern d.conclusion
  if let some fault := premises.findSome? d.premiseFault? then throw fault
  return ⟨d.name, d.level, premises, conclusion, d.repeatsLast⟩

end Definition

/-- The library of the given definitions, or the error of the first that is refused. -/
def Library.ofDefinitions (definitions : List Definition) : Except DefinitionError Library := do
  return ofTemplates (← definitions.mapM Definition.toTemplate)

end Deduction
