import Deduction.Rule.Substitution

/-!
# Rule templates

A template is one form of an inference rule: patterns for the premises and for the conclusion.  An object-level premise
is a sentence on one line.  A meta-level premise is a sub-proof; its pattern is an implication, which has to match
"assumption implies line" for some line of the sub-proof.

* `Template.padded?`: the last premise may count several times if the template says so.
* `Template.apply`: the substitution under which a template justifies a conclusion.
-/

namespace Deduction

/-- Whether a premise is a line or a sub-proof, and whether a rule takes sub-proofs at all. -/
inductive Level where
  | object
  | metaLevel
  deriving Repr, DecidableEq

/-- How a level is written. -/
def Level.text : Level → String
  | .object => "object"
  | .metaLevel => "meta"

/-- The pattern of one premise. -/
structure PremisePattern where
  level : Level
  pattern : Sentence
  deriving Repr, DecidableEq

/-- The written form of a premise pattern.  Sub-proofs are set in brackets. -/
def PremisePattern.chars (p : PremisePattern) : List Char :=
  match p.level with
  | .object => p.pattern.chars
  | .metaLevel => '[' :: p.pattern.chars ++ [']']

/-- One form of an inference rule. -/
structure Template where
  name : String
  level : Level
  premises : List PremisePattern
  conclusion : Sentence
  repeatsLast : Bool
  deriving Repr, DecidableEq

/-- What a step cites: the sentence of a line, or the sentences of a sub-proof with its assumption first. -/
inductive Premise where
  | sentence (s : Sentence)
  | subproof (lines : List Sentence)
  deriving Repr, DecidableEq

namespace Template

/-- The number of premises. -/
def arity (t : Template) : Nat := t.premises.length

/-- The written form of a template. -/
def text (t : Template) : String :=
  let premises := ", ".intercalate (t.premises.map fun p => String.ofList p.chars)
  let rest := if t.repeatsLast then " (last premise may repeat)" else ""
  s!"{t.name} ({t.level.text}): {premises} => {t.conclusion.text}{rest}"

/-- As many premises as the template takes.  If there are fewer, and the template repeats its last premise, the last one
fills the missing places. -/
def padded? (t : Template) (premises : List Premise) : Option (List Premise) :=
  if premises.length = t.arity then some premises
  else if t.repeatsLast && premises.length < t.arity then
    premises.getLast?.map fun last => premises ++ List.replicate (t.arity - premises.length) last
  else none

/-- Extends `σ` by what the object-level premises fix, and collects the patterns and lines of the meta-level ones. -/
def fixPremises : Substitution → List (PremisePattern × Premise) →
    Option (Substitution × List (Sentence × List Sentence))
  | σ, [] => some (σ, [])
  | σ, (p, premise) :: rest =>
    match p.level, premise with
    | .object, .sentence s => do
      let τ ← (matchSentence p.pattern s).toOption
      let joined ← (σ.join τ).toOption
      fixPremises joined rest
    | .metaLevel, .subproof lines => do
      let (fixed, subproofs) ← fixPremises σ rest
      return (fixed, (p.pattern, lines) :: subproofs)
    | _, _ => none

/-- The extensions of `σ` under which the pattern of a meta-level premise is "assumption implies line" for a line of the
sub-proof, in the order of the lines. -/
def witnesses (σ : Substitution) (pattern : Sentence) (lines : List Sentence) : List Substitution :=
  match lines with
  | [] => []
  | assumption :: _ => lines.filterMap fun line =>
    (matchSentence pattern (assumption.implies line) >>= σ.join).toOption

/-- The first choice of one witness from each list that fits together with `σ`. -/
def commonWitness : Substitution → List (List Substitution) → Option Substitution
  | σ, [] => some σ
  | σ, choices :: rest => choices.findSome? fun τ =>
    match σ.join τ with
    | .ok joined => commonWitness joined rest
    | .error _ => none

/-- The substitution under which the conclusion follows from as many premises as the template takes. -/
def unify? (t : Template) (premises : List Premise) (conclusion : Sentence) : Option Substitution := do
  let σ ← (matchSentence t.conclusion conclusion).toOption
  let (fixed, subproofs) ← fixPremises σ (t.premises.zip premises)
  commonWitness fixed (subproofs.map fun (pattern, lines) => witnesses fixed pattern lines)

/-- The substitution under which the template justifies `conclusion` from `premises`. -/
def apply (t : Template) (premises : List Premise) (conclusion : Sentence) : Except MatchError Substitution :=
  match t.padded? premises with
  | none => .error .wrongPremiseCount
  | some padded => match t.unify? padded conclusion with
    | none => .error .doesNotFit
    | some σ => .ok σ

end Template

end Deduction
