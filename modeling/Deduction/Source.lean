import Deduction.Spelling
import Deduction.Text.Lines
import Deduction.Text.Whitespace

/-!
# Proof files

A proof file is a text whose blank lines do not count: line `i` of the proof is the `i`-th line of the text that holds
something other than white space.  `Source` remembers where these lines stand in the text.
-/

namespace Deduction

/-- A proof text and where it comes from. -/
structure Source where
  origin : String
  text : String
  deriving Repr, DecidableEq

namespace Source

/-- The lines of the text that are not blank. -/
def lines (s : Source) : List TextLine := (textLines s.text.toList).filter fun line => !isBlank line.chars

/-- The number of lines. -/
def size (s : Source) : Nat := s.lines.length

/-- There is no line. -/
def isEmpty (s : Source) : Bool := s.lines.isEmpty

/-- The bytes of the text. -/
def byteSize (s : Source) : Nat := byteLength s.text.toList

/-- Line `i`. -/
def line? (s : Source) (i : Nat) : Option (List Char) := s.lines[i]?.map TextLine.chars

/-- The bytes of line `i`.  Past the last line, the end of the text. -/
def lineSpan (s : Source) (i : Nat) : Span :=
  match s.lines[i]? with
  | some line => line.span
  | none => ⟨s.byteSize, s.byteSize⟩

/-- The lines in the spelling that readers take. -/
def asciiLines (s : Source) : List String := s.lines.map fun line => String.ofList (toAscii line.chars)

end Source

end Deduction
