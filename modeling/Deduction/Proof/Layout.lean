import Deduction.Proof.Grammar

/-!
# The layout of proofs

A proof text starts with its premises at depth one, then a separator.  In the body below it, a step is either no deeper
than the step before it and names a rule, or it is an assumption exactly one level deeper, followed by a separator.

`Proof.parse` reads the lines in order and stops at the first that does not fit.
-/

namespace Deduction

/-- An error with the line of the proof text where it arises, and that line if it could be read. -/
structure Located (ε : Type) where
  cause : ε
  source : Nat
  line : Option Line
  deriving Repr, DecidableEq

/-- Why a line does not fit where it stands. -/
inductive LayoutError where
  | invalidDepth
  | expectedSeparatorOrPremise
  | expectedSeparator
  | expectedPremise
  | expectedAssumption
  | unknownRule (name : String)
  | malformed (mismatch : Mismatch)
  deriving Repr, DecidableEq

/-- The wording of a layout error. -/
def LayoutError.message : LayoutError → String
  | .invalidDepth => "a sub-proof must be opened exactly one level deeper than the line before it"
  | .expectedSeparatorOrPremise => "expected a premise `V` or the separator `|-`"
  | .expectedSeparator => "expected the separator `|-`"
  | .expectedPremise => "expected a premise `V` before the separator"
  | .expectedAssumption => "expected an assumption `A` to open a sub-proof"
  | .unknownRule name => s!"`{name}` is not the name of a rule"
  | .malformed mismatch => s!"malformed line: {mismatch.message}"

namespace Proof

/-- Reads line `source` of a proof text. -/
def lineAt (source : Nat) (text : String) : Except (Located LayoutError) Line :=
  match Line.parse text source with
  | .ok line => .ok line
  | .error e => .error ⟨.malformed e.mismatch, source, none⟩

/-- Reads the premises and the separator below them, from line `source` on.  Yields the premises, the number of the line
after the separator, and the texts from there on. -/
def readPremises (source : Nat) : List String → Except (Located LayoutError) (List Step × Nat × List String)
  | [] => .error ⟨.expectedSeparatorOrPremise, source, none⟩
  | text :: rest => do
    match ← lineAt source text with
    | .separator _ => return ([], source + 1, rest)
    | .step s =>
      if s.isPremise then
        if s.depth = 1 then
          let (premises, next) ← readPremises (source + 1) rest
          return (s :: premises, next)
        else throw ⟨.invalidDepth, source, some (.step s)⟩
      else if s.isAssumption then throw ⟨.expectedPremise, source, some (.step s)⟩
      else throw ⟨.expectedSeparatorOrPremise, source, some (.step s)⟩

/-- Reads the body of a proof from line `source` on, the step before it being at depth `depth`. -/
def readBody (isRule : String → Bool) (source depth : Nat) : List String → Except (Located LayoutError) (List Step)
  | [] => .ok []
  | text :: rest => do
    match ← lineAt source text with
    | .separator d => throw ⟨.unknownRule Line.separatorMark, source, some (.separator d)⟩
    | .step s =>
      if depth < s.depth then
        if !s.isAssumption then throw ⟨.expectedAssumption, source, some (.step s)⟩
        else if s.depth ≠ depth + 1 then throw ⟨.invalidDepth, source, some (.step s)⟩
        else match rest with
          | [] => throw ⟨.expectedSeparator, source + 1, none⟩
          | below :: rest => do
            match ← lineAt (source + 1) below with
            | .separator _ => return s :: (← readBody isRule (source + 2) s.depth rest)
            | .step s' => throw ⟨.expectedSeparator, source + 1, some (.step s')⟩
      else if s.isPremise || s.isAssumption || !isRule s.reason.rule then
        throw ⟨.unknownRule s.reason.rule, source, some (.step s)⟩
      else return s :: (← readBody isRule (source + 1) s.depth rest)

/-- Reads the lines of a proof text, `isRule` telling which rule names there are. -/
def parse (isRule : String → Bool) (lines : List String) : Except (Located LayoutError) Proof := do
  let (premises, source, rest) ← readPremises 0 lines
  return ⟨premises ++ (← readBody isRule source 1 rest)⟩

end Proof

end Deduction
