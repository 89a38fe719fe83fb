import Deduction.LetterMap
import Deduction.Sentence.Basic

/-!
# Interpretations and truth

An interpretation gives truth values to finitely many letters.  A sentence has a value only where every letter is
interpreted and no schema variable occurs; both operands of a connective are always evaluated, the left one first.

* `interpretations letters`: all interpretations of some letters, the last letter changing fastest.
* `Sentence.models`: these interpretations split by the value of a sentence.
* `entails`: truth-table consequence.
-/

namespace Deduction

/-- Truth values for finitely many letters. -/
abbrev Interpretation := LetterMap Bool

/-- How a truth value is written. -/
def truthChar (value : Bool) : Char := if value then 'T' else 'F'

/-- The printed form of an interpretation, its letters in order. -/
def Interpretation.text (i : Interpretation) : String :=
  let entry (p : Char × Bool) := String.ofList [p.1, '=', truthChar p.2]
  "\x7b" ++ ", ".intercalate (i.entries.map entry) ++ "\x7d"

/-- Why a sentence has no truth value. -/
inductive EvalError where
  | uninterpreted (letter : Char)
  | schemaVariable (name : Char)
  deriving Repr, DecidableEq

/-- The wording of an evaluation error. -/
def EvalError.message : EvalError → String
  | .uninterpreted letter => s!"letter `{letter}` is not interpreted"
  | .schemaVariable name => s!"cannot evaluate schema variable `{name}`"

namespace Sentence

/-- The truth value of a sentence. -/
def evaluate (i : Interpretation) : Sentence → Except EvalError Bool
  | .atom letter => match i.get? letter with
    | some value => .ok value
    | none => .error (.uninterpreted letter)
  | .var name => .error (.schemaVariable name)
  | .not operand => do return !(← operand.evaluate i)
  | .binary op lhs rhs => do
    let a ← lhs.evaluate i
    let b ← rhs.evaluate i
    return op.apply a b

end Sentence

/-- Replaces each interpretation by the two that also give `letter` a value, true first. -/
def branch (letter : Char) (is : List Interpretation) : List Interpretation :=
  is.flatMap fun i => [i.insert letter true, i.insert letter false]

/-- All interpretations of the given letters.  A letter that is listed again is given a value again. -/
def interpretations (letters : List Char) : List Interpretation :=
  letters.foldl (fun is letter => branch letter is) [LetterMap.empty]

/-- Interpretations split by the value that they give to a sentence. -/
structure Models where
  satisfying : List Interpretation
  falsifying : List Interpretation
  deriving DecidableEq

namespace Sentence

/-- Splits interpretations by the value of a sentence, keeping their order. -/
def split (s : Sentence) : List Interpretation → Except EvalError Models
  | [] => .ok ⟨[], []⟩
  | i :: rest => do
    let value ← s.evaluate i
    let models ← s.split rest
    return if value then { models with satisfying := i :: models.satisfying }
      else { models with falsifying := i :: models.falsifying }

/-- The interpretations of the letters of a sentence, split by its value. -/
def models (s : Sentence) : Except EvalError Models := s.split (interpretations s.letters)

/-- No interpretation of its letters makes the sentence false. -/
def isTautology (s : Sentence) : Except EvalError Bool := do return (← s.models).falsifying.isEmpty

end Sentence

/-- All sentences are true.  Evaluation stops at the first that is false. -/
def allTrue (i : Interpretation) : List Sentence → Except EvalError Bool
  | [] => .ok true
  | s :: rest => do if ← s.evaluate i then allTrue i rest else return false

/-- Of the given interpretations, none makes the premises true and the conclusion false.  Evaluation stops at the first
that does. -/
def entailsOver (premises : List Sentence) (conclusion : Sentence) : List Interpretation → Except EvalError Bool
  | [] => .ok true
  | i :: rest => do
    if ← allTrue i premises then
      if ← conclusion.evaluate i then entailsOver premises conclusion rest else return false
    else entailsOver premises conclusion rest

/-- The premises entail the conclusion, over all interpretations of the letters that occur in either. -/
def entails (premises : List Sentence) (conclusion : Sentence) : Except EvalError Bool :=
  entailsOver premises conclusion
    (interpretations (sortLetters (premises.flatMap Sentence.letters ++ conclusion.letters)))

end Deduction
