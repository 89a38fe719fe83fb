import Deduction.Reading.Cursor

/-!
# Reader steps as data

An `Action` is one operation on a cursor, or a block of them.  Running a list of actions keeps the cursor and the
checkpoints taken on the way, so that statements about every sequence of operations are statements about lists.
-/

namespace Deduction

/-- What a step yields. -/
inductive StepValue where
  | nothing
  | char (c : Char)
  | number (n : Nat)
  deriving Repr, DecidableEq

/-- A change to the trace of a failed step. -/
inductive TraceEdit where
  | add (what : Expectation)
  | clear
  deriving Repr, DecidableEq

/-- One operation on a cursor.  `rewind i` goes back to the checkpoint that was taken `i`-th, counting from zero.  A
block ends with the first failure in it; `optional` is for actions that may fail without ending it. -/
inductive Action where
  | peek
  | pop
  | skipWhitespace
  | expectWhitespace
  | expectEnd
  | fail
  | expectChar (c : Char)
  | expectWhere (p : Char → Bool)
  | expectText (s : String)
  | expectNumber
  | checkpoint
  | rewind (index : Nat)
  | attempt (body : List Action)
  | commit (body : List Action)
  | optional (action : Action)
  | traced (action : Action) (edits : List TraceEdit)

namespace Action

/-- The cursor, and the checkpoints in the order they were taken. -/
structure State where
  cursor : Cursor
  saved : List Cursor
  deriving Repr, DecidableEq

/-- The state before the first character of `text`. -/
def State.start (text : List Char) : State := ⟨Cursor.start text, []⟩

/-- A step that only moves the cursor. -/
def ofReader {α : Type} (m : Reader α) (value : α → StepValue) (s : State) : Except ReadError StepValue × State :=
  match m s.cursor with
  | (.ok a, c) => (.ok (value a), { s with cursor := c })
  | (.error e, c) => (.error e, { s with cursor := c })

/-- A character that may be missing, as the value of a step. -/
def ofChar? : Option Char → StepValue
  | none => .nothing
  | some c => .char c

/-- The trace of an error after an edit. -/
def edit (e : ReadError) : TraceEdit → ReadError
  | .add what => { e with mismatch := { e.mismatch with trace := e.mismatch.trace ++ [what] } }
  | .clear => { e with mismatch := { e.mismatch with trace := [] } }

mutual

/-- Runs one action. -/
def run : Action → State → Except ReadError StepValue × State
  | .peek, s => ofReader Reader.peek ofChar? s
  | .pop, s => ofReader Reader.pop ofChar? s
  | .skipWhitespace, s => ofReader Reader.skipWhitespace .number s
  | .expectWhitespace, s => ofReader Reader.expectWhitespace (fun _ => .nothing) s
  | .expectEnd, s => ofReader Reader.expectEnd (fun _ => .nothing) s
  | .fail, s => ofReader (Reader.fail : Reader Unit) (fun _ => .nothing) s
  | .expectChar c, s => ofReader (Reader.expectChar c) .char s
  | .expectWhere p, s => ofReader (Reader.expectWhere p) .char s
  | .expectText t, s => ofReader (Reader.expectText t) (fun _ => .nothing) s
  | .expectNumber, s => ofReader Reader.expectNumber .number s
  | .checkpoint, s => (.ok (.number s.saved.length), { s with saved := s.saved ++ [s.cursor] })
  | .rewind i, s => (.ok .nothing, { s with cursor := s.saved[i]?.getD s.cursor })
  | .attempt body, s => match runBlock body .nothing s with
    | (.ok v, s') => (.ok v, s')
    | (.error e, s') => (.error e, { s' with cursor := s.cursor })
  | .commit body, s => match runBlock body .nothing s with
    | (.ok v, s') => (.ok v, s')
    | (.error e, s') => (.error { e with committed := true }, s')
  | .optional action, s => match run action s with
    | (.ok v, s') => (.ok v, s')
    | (.error _, s') => (.ok .nothing, s')
  | .traced action edits, s => match run action s with
    | (.ok v, s') => (.ok v, s')
    | (.error e, s') => (.error (edits.foldl edit e), s')

/-- Runs actions up to the first failure.  The value is that of the last action, or `last` if there is none. -/
def runBlock : List Action → StepValue → State → Except ReadError StepValue × State
  | [], last, s => (.ok last, s)
  | action :: rest, _, s => match run action s with
    | (.ok v, s') => runBlock rest v s'
    | (.error e, s') => (.error e, s')

end

/-- Runs all actions, failed ones included, and lists for each its outcome and the place of the cursor after it. -/
def runEach : List Action → State → List (Except ReadError StepValue × Nat)
  | [], _ => []
  | action :: rest, s =>
    let (outcome, s') := run action s
    (outcome, s'.cursor.pos) :: runEach rest s'

end Action

end Deduction
