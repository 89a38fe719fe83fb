import Deduction.Text.Bytes
import Deduction.Text.Whitespace

/-!
# Reading text

A `Cursor` is a place in a text together with the characters still to be read.  A `Reader` moves a cursor and yields a
value or a `ReadError`; the cursor it leaves behind counts in both cases, since a caller may go on after a failure.

An error that has been *committed* marks a text that starts out as one thing and then breaks off, as opposed to a text
that is simply something else.  The trace of an error lists what was expected, innermost first.
-/

namespace Deduction

/-- A place in a text: the bytes read so far and the characters ahead. -/
structure Cursor where
  pos : Nat
  rest : List Char
  deriving Repr, DecidableEq

/-- The cursor before the first character of `text`. -/
def Cursor.start (text : List Char) : Cursor := ⟨0, text⟩

/-- The cursor lies in `text`: what has been read and what is ahead make up the text. -/
def Cursor.Within (text : List Char) (c : Cursor) : Prop :=
  ∃ done, text = done ++ c.rest ∧ c.pos = byteLength done

/-- One entry in the trace of an error. -/
inductive Expectation where
  | char (c : Char)
  | text (s : String)
  | description (s : String)
  | label (s : String)
  deriving Repr, DecidableEq

/-- How an entry of a trace reads. -/
def Expectation.message : Expectation → String
  | .char c => s!"expected '{c}'"
  | .text s => s!"expected \"{s}\""
  | .description s => s!"expected {s}"
  | .label s => s!"while parsing {s}"

/-- A label names the construct being read, the other entries what was missing. -/
def Expectation.isLabel : Expectation → Bool
  | .label _ => true
  | _ => false

/-- Where reading failed, and the trace of what was expected there. -/
structure Mismatch where
  place : Nat
  trace : List Expectation
  deriving Repr, DecidableEq

/-- The innermost expectation, with the labels around it. -/
def Mismatch.what : List Expectation → String
  | [] => "unexpected input"
  | first :: outer =>
    (outer.filter Expectation.isLabel).foldl (fun text label => text ++ " " ++ label.message) first.message

/-- What was expected, and the column where it is missing. -/
def Mismatch.message (m : Mismatch) : String := s!"{what m.trace} at column {m.place + 1}"

/-- A failed reading. -/
structure ReadError where
  committed : Bool
  mismatch : Mismatch
  deriving Repr, DecidableEq

/-- A reader moves a cursor and yields a value or an error. -/
def Reader (α : Type) : Type := Cursor → Except ReadError α × Cursor

namespace Reader

variable {α β : Type}

instance : Monad Reader where
  pure a := fun c => (.ok a, c)
  bind m f := fun c => match m c with
    | (.ok a, c') => f a c'
    | (.error e, c') => (.error e, c')

/-! ### Blocks -/

/-- On failure the cursor goes back to where it was. -/
def attempt (m : Reader α) : Reader α := fun c => match m c with
  | (.ok a, c') => (.ok a, c')
  | (.error e, _) => (.error e, c)

/-- On failure the error is committed. -/
def commit (m : Reader α) : Reader α := fun c => match m c with
  | (.ok a, c') => (.ok a, c')
  | (.error e, c') => (.error { e with committed := true }, c')

/-- The value of `m`, or `none` where it fails.  The cursor is left where `m` left it. -/
def optional (m : Reader α) : Reader (Option α) := fun c => match m c with
  | (.ok a, c') => (.ok (some a), c')
  | (.error _, c') => (.ok none, c')

/-- Runs `m` with a budget of one more than the number of characters ahead, which suffices for a recursion that reads
a character before each call. -/
def withBudget (m : Nat → Reader α) : Reader α := fun c => m (c.rest.length + 1) c

/-! ### The trace -/

/-- Changes the trace of a failure. -/
def mapTrace (f : List Expectation → List Expectation) (m : Reader α) : Reader α := fun c => match m c with
  | (.ok a, c') => (.ok a, c')
  | (.error e, c') => (.error { e with mismatch := { e.mismatch with trace := f e.mismatch.trace } }, c')

/-- Adds an entry to the trace of a failure. -/
def expecting (m : Reader α) (what : Expectation) : Reader α := m.mapTrace (· ++ [what])

/-- Forgets the trace of a failure. -/
def untraced (m : Reader α) : Reader α := m.mapTrace fun _ => []

/-! ### Single steps -/

/-- Fails at the cursor. -/
def fail : Reader α := fun c => (.error ⟨false, c.pos, []⟩, c)

/-- The place of the cursor, to come back to with `rewind`. -/
def checkpoint : Reader Cursor := fun c => (.ok c, c)

/-- Puts the cursor back to a place where it has been. -/
def rewind (place : Cursor) : Reader Unit := fun _ => (.ok (), place)

/-- The next character, which stays unread. -/
def peek : Reader (Option Char) := fun c => (.ok c.rest.head?, c)

/-- Reads a character, if there is one. -/
def pop : Reader (Option Char) := fun c => match c.rest with
  | [] => (.ok none, c)
  | x :: rest => (.ok (some x), ⟨c.pos + x.utf8Size, rest⟩)

/-- Reads the longest run of characters that satisfy `p`. -/
def takeWhile (p : Char → Bool) : Reader (List Char) := fun c =>
  (.ok (c.rest.takeWhile p), ⟨c.pos + byteLength (c.rest.takeWhile p), c.rest.dropWhile p⟩)

/-- Skips white space and tells how many bytes that were. -/
def skipWhitespace : Reader Nat := do return byteLength (← takeWhile isWhitespace)

/-- Skips white space, of which there has to be some. -/
def expectWhitespace : Reader Unit := do
  if (← skipWhitespace) = 0 then fail.expecting (.description "whitespace")

/-- Reads a character that satisfies `p`. -/
def expectWhere (p : Char → Bool) : Reader Char := fun c => match c.rest with
  | [] => fail c
  | x :: rest => if p x then (.ok x, ⟨c.pos + x.utf8Size, rest⟩) else fail c

/-- Reads the character `x`. -/
def expectChar (x : Char) : Reader Char := (expectWhere (· == x)).expecting (.char x)

/-- Reads the characters `xs` one by one. -/
def expectChars : List Char → Reader Unit
  | [] => pure ()
  | x :: xs => do
    let _ ← expectChar x
    expectChars xs

/-- Reads the text `s`, all of it or nothing. -/
def expectText (s : String) : Reader Unit := (attempt (expectChars s.toList)).untraced.expecting (.text s)

/-- Numbers are read up to this bound, which is not reached. -/
def numberBound : Nat := Nat.pow 2 64

/-- Reads a decimal number below `numberBound`.  The digits count as read even when they are too many. -/
def expectNumber : Reader Nat := do
  let start ← checkpoint
  let digits ← takeWhile Char.isDigit
  let value := Nat.ofDigitChars 10 digits 0
  if digits ≠ [] ∧ value < numberBound then return value
  else fun c => (.error ⟨false, start.pos, [.description "a line number"]⟩, c)

/-- Succeeds at the end of the text. -/
def expectEnd : Reader Unit := fun c => match c.rest with
  | [] => (.ok (), c)
  | _ :: _ => fail.expecting (.description "end of line") c

/-! ### Whole texts -/

/-- Reads all of a text with `m`, up to white space at its end. -/
def readAll (m : Reader α) (text : List Char) : Except ReadError α :=
  let whole : Reader α := do
    let a ← m
    let _ ← skipWhitespace
    expectEnd
    return a
  (whole (Cursor.start text)).1

end Reader

end Deduction
