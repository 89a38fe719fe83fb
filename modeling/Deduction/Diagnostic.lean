import Deduction.Proof.Check
import Deduction.Source

/-!
# Diagnostics

A diagnostic explains a fault of a proof file: a title, the stretches of the text that it concerns, and advice.  The
first stretch is where the fault is; the others are the lines that the faulty step cites.
-/

namespace Deduction

/-- How a marked stretch of text bears on a fault. -/
inductive Severity where
  | error
  | info
  deriving Repr, DecidableEq

/-- A marked stretch of text. -/
structure Mark where
  severity : Severity
  label : String
  span : Span
  deriving Repr, DecidableEq

/-- An explanation of a fault. -/
structure Diagnostic where
  title : String
  marks : List Mark
  help : List String
  deriving Repr, DecidableEq

namespace Diagnostic

/-- A mark at the fault. -/
def here (label : String) (span : Span) : Mark := ⟨.error, label, span⟩

/-- A mark at a line that the fault concerns. -/
def also (label : String) (span : Span) : Mark := ⟨.info, label, span⟩

/-- The advice where an assumption and its separator do not go together. -/
def separatorHelp : String := "an assumption `A` is followed by a separator such as `||-`"

/-- The character at which a line breaks off, if the line is written in ASCII connectives throughout; otherwise places
in the line that was read are not places in the text, and the whole line is marked. -/
def mismatchSpan (source : Source) (i : Nat) (m : Mismatch) : Span :=
  let line := (source.line? i).getD []
  let span := source.lineSpan i
  if toAscii line = line ∧ m.place ≤ byteLength line then
    let start := span.start + m.place
    ⟨start, max (min (start + 1) span.stop) start⟩
  else span

/-- The number of a line that is a step, with the place of the line. -/
def numbered? (e : String × Nat) : Option (Nat × Nat) :=
  match Line.parse e.1 e.2 with
  | .ok (.step s) => some (s.number, e.2)
  | _ => none

/-- The steps that can be read from a proof file, by number, each with its line. -/
def numberedLines (source : Source) : List (Nat × Nat) := source.asciiLines.zipIdx.filterMap numbered?

/-- The lines that a citation points at: both ends of a range, once if they are the same. -/
def citedLines (source : Source) (c : Citation) : List Nat :=
  let ends := match c with
    | .line number => [number]
    | .range first last => if first = last then [first] else [first, last]
  ends.filterMap fun number => (numberedLines source).lookup number

/-- Marks for the lines that a citation points at. -/
def citationMarks (source : Source) (label : String) (c : Citation) : List Mark :=
  (citedLines source c).map fun i => also label (source.lineSpan i)

/-- The marks and the advice for a layout error. -/
def explainLayout (source : Source) (i : Nat) (line : Option Line) (e : LayoutError) : List Mark × List String :=
  let span := source.lineSpan i
  let atEnd := source.size ≤ i
  match e with
  | .malformed m => ([here m.message (mismatchSpan source i m)], [])
  | .expectedSeparator =>
    ([here (if atEnd then "the proof ends here" else "expected a separator here") span], [separatorHelp])
  | .expectedSeparatorOrPremise =>
    if atEnd then ([here "the proof ends here" span], ["the premises are closed with the separator `|-`"])
    else ([here "" span], [])
  | .invalidDepth => match line with
    | some (.step s) => ([here s!"this line is at depth {s.depth}" span], [])
    | _ => ([here "unexpected depth" span], [])
  | .unknownRule name => match line with
    | some (.separator _) => ([here "separator without an assumption" span], [separatorHelp])
    | _ => ([here s!"unknown rule `{name}`" span], ["`natded rules` lists the available rules"])
  | .expectedPremise | .expectedAssumption => ([here "" span], [])

/-- The marks and the advice for a check error. -/
def explainCheck (library : Library) (source : Source) (i : Nat) (step : Option Step) (e : CheckError) :
    List Mark × List String :=
  let span := source.lineSpan i
  match e with
  | .invalidNumbering expected => ([here s!"expected line {expected + 1}" span], [])
  | .inaccessible c => (here "cited here" span :: citationMarks source "this line is not in scope" c, [])
  | .invalidApplication rule error =>
    let citations := match step with
      | some s => s.reason.citations
      | none => []
    (here error.message span :: citations.flatMap (citationMarks source "cited premise"),
      (library.get rule).map fun t => s!"`{rule}` applies as {t.text}")
  | .invalidPremise _ => ([here "premise introduced here" span], [])
  | .missingConclusion _ => (if source.isEmpty then [] else [here "the proof ends here" span], [])

/-- The diagnostic for a fault of a proof file. -/
def ofError (library : Library) (source : Source) (e : VerificationError) : Diagnostic :=
  let (marks, help) := match e.cause with
    | .layout cause => explainLayout source e.source e.line cause
    | .check cause => explainCheck library source e.source e.step? cause
  ⟨e.cause.message, marks, help⟩

end Diagnostic

end Deduction
