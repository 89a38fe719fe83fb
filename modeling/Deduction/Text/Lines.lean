import Deduction.Text.Bytes

/-!
# Lines of a text

A line ends at a line feed.  One carriage return right before that line feed belongs to the ending; a carriage return
anywhere else is part of the line.

* `segments text`: the stretches between the line feeds.
* `textLines text`: the lines, each with the byte where it starts.
-/

namespace Deduction

/-- A line without its ending, and the byte of the text at which it starts. -/
structure TextLine where
  start : Nat
  chars : List Char
  deriving Repr, DecidableEq

/-- The bytes that a line covers, its ending excluded. -/
def TextLine.span (line : TextLine) : Span := ⟨line.start, line.start + byteLength line.chars⟩

/-- The stretches of `text` between its line feeds, one more than there are line feeds. -/
def segments : List Char → List (List Char)
  | [] => [[]]
  | c :: rest =>
    if c = '\n' then [] :: segments rest
    else match segments rest with
      | [] => [[c]]
      | line :: lines => (c :: line) :: lines

/-- A segment that a line feed closes, without the carriage return that belongs to the line's ending. -/
def dropReturn (segment : List Char) : List Char :=
  if segment.getLast? = some '\r' then segment.dropLast else segment

/-- The lines of consecutive segments, the first of which starts at byte `start`. -/
def locateLines : Nat → List (List Char) → List TextLine
  | _, [] => []
  | start, [last] => [⟨start, last⟩]
  | start, segment :: rest => ⟨start, dropReturn segment⟩ :: locateLines (start + byteLength segment + 1) rest

/-- The lines of a text in order. -/
def textLines (text : List Char) : List TextLine := locateLines 0 (segments text)

end Deduction
