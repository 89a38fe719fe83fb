import Deduction.LetterMap
import Deduction.Sentence.Basic

/-!
# Substitutions and matching

A substitution gives sentences for schema variables.  Matching a pattern against a sentence yields the substitution
that turns the one into the other; several matches are put together with `join`, which fails where they differ.
-/

namespace Deduction

/-- Sentences for schema variables. -/
abbrev Substitution := LetterMap Sentence

/-- Why a rule does not apply. -/
inductive MatchError where
  | connectiveClash
  | variableClash
  | wrongPremiseCount
  | doesNotFit
  deriving Repr, DecidableEq

/-- The wording of a match error. -/
def MatchError.message : MatchError → String
  | .connectiveClash => "the connectives do not match"
  | .variableClash => "a schema variable would stand for two different sentences"
  | .wrongPremiseCount => "the rule takes a different number of premises"
  | .doesNotFit => "the cited lines do not fit the rule"

namespace Substitution

/-- `σ` does not bind `x` to anything but `s`. -/
def allows (σ : Substitution) (x : Char) (s : Sentence) : Bool :=
  match σ.get? x with
  | none => true
  | some bound => bound == s

/-- Both substitutions together, if they give the same sentence wherever both bind a variable. -/
def join (σ τ : Substitution) : Except MatchError Substitution :=
  if τ.entries.all fun (x, s) => σ.allows x s then .ok (σ.union τ) else .error .variableClash

end Substitution

/-- The substitution that turns `pattern` into `sentence`. -/
def matchSentence : (pattern sentence : Sentence) → Except MatchError Substitution
  | .var x, s => .ok (LetterMap.single x s)
  | .atom a, .atom b => if a = b then .ok LetterMap.empty else .error .connectiveClash
  | .not p, .not s => matchSentence p s
  | .binary op pl pr, .binary op' sl sr =>
    if op = op' then do
      let σ ← matchSentence pl sl
      let τ ← matchSentence pr sr
      σ.join τ
    else .error .connectiveClash
  | _, _ => .error .connectiveClash

/-- The sentence that a pattern becomes under a substitution; variables without a binding stay. -/
def Sentence.instantiate (σ : Substitution) : Sentence → Sentence
  | .atom a => .atom a
  | .var x => (σ.get? x).getD (.var x)
  | .not s => .not (s.instantiate σ)
  | .binary op l r => .binary op (l.instantiate σ) (r.instantiate σ)

end Deduction
