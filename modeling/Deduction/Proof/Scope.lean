import Deduction.Proof.Basic
import Deduction.Rule.Template

/-!
# Scope

Which lines and sub-proofs a step may cite.  A line can be cited as long as the sub-proof that it stands in is open; a
sub-proof can be cited once it is closed, from the level around it.

* `citable steps here c`: the step at position `here` may cite `c`.
* `premise? steps c`: the premise that a citation stands for.
-/

namespace Deduction

/-- The steps from position `first` to position `last`, both included. -/
def stretch (steps : List Step) (first last : Nat) : List Step := (steps.take (last + 1)).drop first

/-- The line at position `line` comes before position `here`, and no step from there to `here` is less deep. -/
def lineCitable (steps : List Step) (here line : Nat) : Bool :=
  match steps[line]? with
  | some s => line < here && (stretch steps line here).all fun t => s.depth ≤ t.depth
  | none => false

/-- The steps from `first` to `last` make up a sub-proof directly below the level of the step at position `here`, and
that level has not been left since. -/
def rangeCitable (steps : List Step) (here first last : Nat) : Bool :=
  match steps[first]?, steps[here]? with
  | some s, some t =>
    first ≤ last && last < here && s.isAssumption && s.depth == t.depth + 1 &&
      (stretch steps first last).all (fun u => s.depth ≤ u.depth) &&
      (stretch steps (last + 1) here).all (fun u => t.depth ≤ u.depth)
  | _, _ => false

/-- The step at position `here` may cite `c`. -/
def citable (steps : List Step) (here : Nat) : Citation → Bool
  | .line line => lineCitable steps here line
  | .range first last => rangeCitable steps here first last

/-- The premise that a citation stands for: the sentence of a line, or the sentences that stand directly in a sub-proof.
There is none if the citation points outside the proof. -/
def premise? (steps : List Step) : Citation → Option Premise
  | .line line => steps[line]?.map fun s => .sentence s.sentence
  | .range first last =>
    if first ≤ last ∧ last < steps.length then
      steps[first]?.map fun s =>
        .subproof (((stretch steps first last).filter fun t => t.depth == s.depth).map Step.sentence)
    else none

end Deduction
