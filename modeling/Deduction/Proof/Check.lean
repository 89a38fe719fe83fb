import Deduction.Proof.Layout
import Deduction.Proof.Scope
import Deduction.Rule.Library

/-!
# Checking proofs

A proof is checked in passes over all of its steps: the numbering, what may be cited, the premises that are allowed, the
application of the rules, and the expected conclusion.  The first fault of the first pass that finds one is reported.

* `Proof.fault?`: the first fault of a list of steps.
* `verify`: reads the lines of a proof text and checks the proof.
-/

namespace Deduction

/-- Why a step is not in order. -/
inductive CheckError where
  | invalidNumbering (expected : Nat)
  | inaccessible (citation : Citation)
  | invalidApplication (rule : String) (error : MatchError)
  | invalidPremise (sentence : Sentence)
  | missingConclusion (sentence : Sentence)
  deriving Repr, DecidableEq

/-- The wording of a check error. -/
def CheckError.message : CheckError → String
  | .invalidNumbering expected => s!"this line should be numbered {expected + 1}"
  | .inaccessible citation => s!"line {String.ofList citation.chars} cannot be cited from here"
  | .invalidApplication rule error => s!"`{rule}` does not justify this line: {error.message}"
  | .invalidPremise sentence => s!"`{sentence.text}` is not one of the allowed premises"
  | .missingConclusion sentence => s!"the proof never concludes `{sentence.text}`"

/-- What a proof may assume and has to conclude, where that is prescribed. -/
structure Task where
  allowedPremises : Option (List Sentence) := none
  expectedConclusion : Option Sentence := none
  deriving Repr, DecidableEq

namespace Proof

/-- An error at a step. -/
def faultAt (s : Step) (cause : CheckError) : Located CheckError := ⟨cause, s.source, some (.step s)⟩

/-- The first step that is not numbered by its position. -/
def numberingFault? (steps : List Step) : Option (Located CheckError) :=
  steps.zipIdx.findSome? fun (s, i) => if s.number = i then none else some (faultAt s (.invalidNumbering i))

/-- The first citation that is not in scope. -/
def scopeFault? (steps : List Step) : Option (Located CheckError) :=
  steps.zipIdx.findSome? fun (s, here) => s.reason.citations.findSome? fun c =>
    if citable steps here c then none else some (faultAt s (.inaccessible c))

/-- The first premise that is not among the allowed ones. -/
def premiseFault? (steps : List Step) (allowed : List Sentence) : Option (Located CheckError) :=
  steps.findSome? fun s =>
    if s.isPremise && !allowed.contains s.sentence then some (faultAt s (.invalidPremise s.sentence)) else none

/-- The premises that a step cites.  Every citation in scope points into the proof, so none is lost. -/
def citedPremises (steps : List Step) (s : Step) : List Premise := s.reason.citations.filterMap (premise? steps)

/-- The first step that its rule does not justify. -/
def applicationFault? (steps : List Step) (library : Library) : Option (Located CheckError) :=
  steps.findSome? fun s =>
    if s.isPremise || s.isAssumption then none
    else match library.apply s.reason.rule (citedPremises steps s) s.sentence with
      | .ok _ => none
      | .error e => some (faultAt s (.invalidApplication s.reason.rule e))

/-- The last step, if no step states the conclusion. -/
def conclusionFault? (steps : List Step) (conclusion : Sentence) : Option (Located CheckError) :=
  if steps.any (·.sentence == conclusion) then none
  else match steps.getLast? with
    | some s => some (faultAt s (.missingConclusion conclusion))
    | none => some ⟨.missingConclusion conclusion, 0, none⟩

/-- The first fault of a list of steps. -/
def fault? (library : Library) (task : Task) (steps : List Step) : Option (Located CheckError) :=
  numberingFault? steps <|> scopeFault? steps <|> task.allowedPremises.bind (premiseFault? steps) <|>
    applicationFault? steps library <|> task.expectedConclusion.bind (conclusionFault? steps)

/-- Checks the steps of a proof. -/
def check (library : Library) (task : Task) (p : Proof) : Except (Located CheckError) Unit :=
  match fault? library task p.steps with
  | some e => .error e
  | none => .ok ()

end Proof

/-- Why a proof text is not valid. -/
inductive Fault where
  | layout (error : LayoutError)
  | check (error : CheckError)
  deriving Repr, DecidableEq

/-- The wording of a fault. -/
def Fault.message : Fault → String
  | .layout error => error.message
  | .check error => error.message

/-- A fault of a proof text, with its line. -/
abbrev VerificationError := Located Fault

namespace VerificationError

/-- A layout error as a fault of a proof text. -/
def ofLayout (e : Located LayoutError) : VerificationError := ⟨.layout e.cause, e.source, e.line⟩

/-- A check error as a fault of a proof text. -/
def ofCheck (e : Located CheckError) : VerificationError := ⟨.check e.cause, e.source, e.line⟩

/-- The fault and its line, counted from one. -/
def message (e : VerificationError) : String := s!"line {e.source + 1}: {e.cause.message}"

/-- The fault is in the layout of the proof text. -/
def isLayout (e : VerificationError) : Bool :=
  match e.cause with
  | .layout _ => true
  | .check _ => false

/-- The step at which the fault arises, if it arises at one. -/
def step? (e : VerificationError) : Option Step := e.line.bind Line.step?

end VerificationError

/-- Reads the lines of a proof text. -/
def readProof (library : Library) (lines : List String) : Except VerificationError Proof :=
  (Proof.parse library.contains lines).mapError VerificationError.ofLayout

/-- Reads the lines of a proof text and checks the proof. -/
def verify (library : Library) (task : Task) (lines : List String) : Except VerificationError Proof := do
  let proof ← readProof library lines
  (proof.check library task).mapError VerificationError.ofCheck
  return proof

end Deduction
