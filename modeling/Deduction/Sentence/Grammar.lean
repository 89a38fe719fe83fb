import Deduction.Reading.Cursor
import Deduction.Sentence.Basic

/-!
# Reading sentences

The strict grammar: a letter `a`-`z`, a schema variable `A`-`Z` where these are allowed, `!` before a sentence, or two
sentences with a connective between them in parentheses.  White space may stand before every token.  A sentence that
stands alone may go without its outermost parentheses.
-/

namespace Deduction

namespace Sentence

/-- Reads the first of the given connectives that stands at the cursor. -/
def readConnectiveOf : List Connective → Reader Connective
  | [] => Reader.fail.expecting (.description "a connective")
  | op :: rest => do
    match ← (Reader.expectText op.symbol).optional with
    | some _ => return op
    | none => readConnectiveOf rest

/-- Reads a connective. -/
def readConnective : Reader Connective := readConnectiveOf Connective.all

/-- Reads a sentence of the strict grammar, with schema variables if `vars` holds.  Each nested sentence takes one from
the budget. -/
def readWithin (vars : Bool) : Nat → Reader Sentence
  | 0 => Reader.fail.expecting (.description "a sentence")
  | budget + 1 => do
    let _ ← Reader.skipWhitespace
    match ← Reader.peek with
    | some '!' =>
      let _ ← Reader.pop
      return .not (← (readWithin vars budget).commit)
    | some '(' =>
      let _ ← Reader.pop
      Reader.commit do
        let lhs ← readWithin vars budget
        let _ ← Reader.skipWhitespace
        let op ← readConnective
        let rhs ← readWithin vars budget
        let _ ← Reader.skipWhitespace
        let _ ← Reader.expectChar ')'
        return .binary op lhs rhs
    | some c =>
      if c.isLower then
        let _ ← Reader.pop
        return .atom c
      else if c.isUpper && vars then
        let _ ← Reader.pop
        return .var c
      else Reader.fail.expecting (.description "a sentence")
    | none => Reader.fail.expecting (.description "a sentence")

/-- Reads a sentence of the strict grammar. -/
def reader (vars : Bool) : Reader Sentence := Reader.withBudget (readWithin vars)

/-- Reads a sentence whose outermost parentheses may be missing. -/
def topReader (vars : Bool) : Reader Sentence := do
  let lhs ← reader vars
  let op ← (Reader.attempt do
    let _ ← Reader.skipWhitespace
    readConnective).optional
  match op with
  | some op => return .binary op lhs (← (reader vars).commit)
  | none => return lhs

/-- Reads a text as a sentence of the strict grammar without schema variables. -/
def parse (text : String) : Except ReadError Sentence := (reader false).readAll text.toList

/-- Reads a text as a sentence without schema variables, the outermost parentheses being optional. -/
def parseTop (text : String) : Except ReadError Sentence := (topReader false).readAll text.toList

/-- Reads a text as a pattern: a sentence of the strict grammar that may have schema variables. -/
def parsePattern (text : String) : Except ReadError Sentence := (reader true).readAll text.toList

end Sentence

end Deduction
