import Deduction.Proof.Basic
import Deduction.Sentence.Grammar
import Deduction.Text.Alphabetic

/-!
# Reading proof lines

A line is a run of bars, then either `-`, which makes it a separator, or a number, a sentence and a justification with
white space between them.  The justification is a rule name and, in parentheses right after it, the cited lines.
-/

namespace Deduction

/-- Rule names are made of these characters. -/
def isRuleChar (c : Char) : Bool := isAlphabetic c || c == '+' || c == '-'

namespace Line

/-- Reads the bars in front of a line; their number is the depth. -/
def readBars : Reader Nat := do
  let bars ← Reader.takeWhile (· == '|')
  if bars.isEmpty then Reader.fail.expecting (.char '|') else return bars.length

/-- Reads a line number.  Numbers count from one in texts and from zero here. -/
def readNumber : Reader Nat := do
  let start ← Reader.checkpoint
  match ← Reader.expectNumber with
  | 0 =>
    Reader.rewind start
    Reader.fail.expecting (.description "a line number of at least 1")
  | n + 1 => return n

/-- Reads one citation. -/
def readCitation : Reader Citation := do
  let _ ← Reader.skipWhitespace
  let first ← readNumber
  let _ ← Reader.skipWhitespace
  match ← (Reader.expectChar '-').optional with
  | some _ =>
    let _ ← Reader.skipWhitespace
    return .range first (← readNumber)
  | none => return .line first

/-- Reads the citations after the first, up to the closing parenthesis.  Each takes one from the budget. -/
def readMoreCitations : Nat → Reader (List Citation)
  | 0 => Reader.fail.expecting (.char ')')
  | budget + 1 => do
    let _ ← Reader.skipWhitespace
    match ← (Reader.expectChar ',').optional with
    | some _ =>
      let citation ← readCitation
      return citation :: (← readMoreCitations budget)
    | none =>
      let _ ← Reader.expectChar ')'
      return []

/-- Reads the citations of a rule, if there are any. -/
def readCitations : Reader (List Citation) := do
  match ← (Reader.expectChar '(').optional with
  | some _ => Reader.commit do
    let citation ← readCitation
    return citation :: (← Reader.withBudget readMoreCitations)
  | none => return []

/-- Reads a rule name with its citations.  A premise and an assumption cite nothing. -/
def readJustification : Reader Justification := do
  let name ← Reader.takeWhile isRuleChar
  if name.isEmpty then Reader.fail.expecting (.description "a rule name")
  else
    let start ← Reader.checkpoint
    let reason : Justification := ⟨String.ofList name, ← readCitations⟩
    if (reason.isPremise || reason.isAssumption) && !reason.citations.isEmpty then
      Reader.rewind start
      Reader.fail.expecting (.description "no citations on a premise or assumption")
    else return reason

/-- Reads what follows the bars of a step. -/
def readStep (source depth : Nat) : Reader Line := do
  let _ ← Reader.skipWhitespace
  let number ← readNumber
  Reader.expectWhitespace
  let sentence ← Sentence.topReader false
  Reader.expectWhitespace
  let reason ← readJustification
  return .step { source, number, depth, sentence, reason }

/-- Reads a line. -/
def reader (source : Nat) : Reader Line := do
  let _ ← Reader.skipWhitespace
  let depth ← readBars
  match ← (Reader.expectChar '-').optional with
  | some _ => return .separator depth
  | none => ((readStep source depth).commit).expecting (.label "a proof line")

/-- Reads a text as the line `source` of a proof. -/
def parse (text : String) (source : Nat) : Except ReadError Line := (reader source).readAll text.toList

end Line

end Deduction
