import Deduction.Sentence.Basic
import Deduction.Spelling

/-!
# Proofs

A proof is a list of steps.  A step stands at a depth, the number of bars in front of it, which is one for the proof
itself and one more for every sub-proof around the step.  Numbers of lines count from zero here and from one in texts.

* `Step.chars`, `Line.chars`: the written form of a step and of a line.
* `Proof.toLines`: the written form of a proof, with its separators.
-/

namespace Deduction

/-- The decimal digits of a number. -/
def decimal (n : Nat) : List Char := Nat.toDigits 10 n

/-- What a step refers to: one line, or a sub-proof from its assumption to its last line. -/
inductive Citation where
  | line (number : Nat)
  | range (first last : Nat)
  deriving Repr, DecidableEq

/-- The written form of a citation. -/
def Citation.chars : Citation → List Char
  | .line number => decimal (number + 1)
  | .range first last => decimal (first + 1) ++ '-' :: decimal (last + 1)

/-- A rule with the lines that it is applied to. -/
structure Justification where
  rule : String
  citations : List Citation
  deriving Repr, DecidableEq

/-- The rule name that marks a premise of the proof. -/
def premiseName : String := "V"

/-- The rule name that marks the assumption of a sub-proof. -/
def assumptionName : String := "A"

namespace Justification

/-- The step is a premise of the proof. -/
def isPremise (j : Justification) : Bool := j.rule == premiseName

/-- The step is the assumption of a sub-proof. -/
def isAssumption (j : Justification) : Bool := j.rule == assumptionName

/-- The written form of a justification. -/
def chars (j : Justification) : List Char :=
  if j.citations.isEmpty then j.rule.toList
  else j.rule.toList ++ '(' :: [',', ' '].intercalate (j.citations.map Citation.chars) ++ [')']

end Justification

/-- One step of a proof.  `source` is the line of the proof text that it was read from. -/
structure Step where
  source : Nat
  number : Nat
  depth : Nat
  sentence : Sentence
  reason : Justification
  deriving Repr, DecidableEq

namespace Step

/-- The step is a premise of the proof. -/
abbrev isPremise (s : Step) : Bool := s.reason.isPremise

/-- The step is the assumption of a sub-proof. -/
abbrev isAssumption (s : Step) : Bool := s.reason.isAssumption

/-- The written form of a step, its sentence in the given spelling. -/
def charsIn (spelling : Spelling) (s : Step) : List Char :=
  List.replicate s.depth '|' ++ decimal (s.number + 1) ++ ' ' :: spelling.sentence s.sentence ++
    ' ' :: s.reason.chars

/-- The written form of a step. -/
def chars (s : Step) : List Char := s.charsIn .ascii

end Step

/-- A line of a proof text: a step, or the separator below the premises or below an assumption. -/
inductive Line where
  | separator (depth : Nat)
  | step (step : Step)
  deriving Repr, DecidableEq

namespace Line

/-- How a separator is written at depth one. -/
def separatorMark : String := "|-"

/-- The written form of a line. -/
def chars : Line → List Char
  | .separator depth => List.replicate (depth - 1) '|' ++ separatorMark.toList
  | .step s => s.chars

/-- The written form of a line. -/
def text (line : Line) : String := String.ofList line.chars

/-- The step of a line that is one. -/
def step? : Line → Option Step
  | .separator _ => none
  | .step s => some s

end Line

/-- A proof as the list of its steps. -/
structure Proof where
  steps : List Step
  deriving Repr, DecidableEq

namespace Proof

/-- The steps that are premises. -/
def premises (p : Proof) : List Step := p.steps.filter Step.isPremise

/-- The lines of the body: every step, and below an assumption its separator. -/
def bodyLines (steps : List Step) : List Line :=
  steps.flatMap fun s => if s.isAssumption then [.step s, .separator s.depth] else [.step s]

/-- The lines of a proof: as many steps as there are premises, a separator, and the body. -/
def lines (p : Proof) : List Line :=
  (p.steps.take p.premises.length).map .step ++ .separator 1 :: bodyLines (p.steps.drop p.premises.length)

/-- The written form of a proof. -/
def toLines (p : Proof) : List String := p.lines.map Line.text

end Proof

end Deduction
