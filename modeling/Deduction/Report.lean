import Deduction.Proof.Basic
import Deduction.Spelling

/-!
# Reports

What is shown about a proof that holds, and the line that is shown about one that does not.  Texts carry the escape
sequences of terminals for colours.
-/

namespace Deduction

/-! ### Styles -/

/-- A way to set text off on a terminal. -/
inductive Style where
  | red
  | brightRed
  | green
  | gray
  | bold
  deriving Repr, DecidableEq

/-- The escape sequence that turns a style on. -/
def Style.on : Style → String
  | .red => "\x1b[31m"
  | .brightRed => "\x1b[91m"
  | .green => "\x1b[32m"
  | .gray => "\x1b[90m"
  | .bold => "\x1b[1m"

/-- A text in the given styles. -/
def styled (styles : List Style) (text : String) : String :=
  String.join (styles.map Style.on) ++ text ++ "\x1b[0m"

/-- The ending of a noun that is counted. -/
def plural (n : Nat) : String := if n = 1 then "" else "s"

/-! ### Summaries -/

/-- The figures of a proof. -/
structure Summary where
  steps : Nat
  premises : Nat
  subproofs : Nat
  maxDepth : Nat
  rules : List String
  conclusion : Option Sentence
  deriving Repr, DecidableEq

/-- The figures of a proof: its rules in the order of first use, and as its conclusion the last step at depth one. -/
def Proof.summary (p : Proof) : Summary where
  steps := p.steps.length
  premises := p.premises.length
  subproofs := (p.steps.filter Step.isAssumption).length
  maxDepth := (p.steps.map Step.depth).max?.getD 1
  rules := ((p.steps.filter fun s => !s.isPremise && !s.isAssumption).map fun s => s.reason.rule).eraseDups
  conclusion := (p.steps.findRev? fun s => s.depth == 1).map Step.sentence

/-! ### Reports -/

/-- The line that numbers a run, if runs are numbered. -/
def runLines : Option Nat → List String
  | some run => [styled [.gray] s!"check #{run}"]
  | none => []

/-- The lines shown about a proof that holds. -/
def Proof.reportLines (p : Proof) (spelling : Spelling) (run : Option Nat) : List String :=
  let s := p.summary
  let count (n : Nat) (noun : String) := s!"{n} {noun}{plural n}"
  let premises := count s.premises "premise"
  let subproofs := count s.subproofs "sub-proof"
  let verdict := " " ++ styled [.green] "✓" ++ " " ++ styled [.bold] (toString s.steps) ++ " step" ++ plural s.steps ++
    s!" verified ({premises}, {subproofs}, depth {s.maxDepth})."
  let conclusion := match s.conclusion with
    | some c => ["   concludes " ++ styled [.bold] (String.ofList (spelling.sentence c))]
    | none => []
  let rules := if s.rules.isEmpty then [] else ["   rules used: " ++ ", ".intercalate s.rules]
  runLines run ++ verdict :: conclusion ++ rules

/-- The lines shown about a proof that does not hold. -/
def failureLines (run : Option Nat) : List String :=
  runLines run ++ [" " ++ styled [.red] "✗" ++ " " ++ styled [.bold] "the proof is not valid"]

/-- Lines as one text, each with its line feed. -/
def unlines (lines : List String) : String := String.join (lines.map (· ++ "\n"))

end Deduction
