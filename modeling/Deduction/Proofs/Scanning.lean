import Deduction.Proofs.Keeping

/-!
# Reading by places

A cursor carries along the characters that are ahead of it.  A `Scanner` has the text and a place in it, in bytes, and
cuts the text there whenever it looks at it.  A cut is possible at a boundary only; a scanner that tries one elsewhere
comes to no result at all, not even to an error.

`Scanner.Follows k text m` says that this never happens to the scanner `k` as long as it is started at a boundary, and
that it does with the place what the reader `m` does with the cursor.  There is a scanner for every step of a reader,
and one rule for every way to put them together.

* `cutFrom?_of_within`, `cut?_of_within`: the cuts at and between cursors.
* `Scanner.skipWhile_eq`: the loop over a run of characters.
* `Scanner.Follows.bind`: one scanner after the other.
-/

namespace Deduction

/-! ## Cuts -/

/-- The text from byte `n` on, if it can be cut there. -/
def cutFrom? (text : String) (n : Nat) : Option String := (text.pos? ⟨n⟩).map fun p => (text.sliceFrom p).copy

/-- The text from byte `start` to byte `stop`, if it can be cut at both and they are not the wrong way round. -/
def cut? (text : String) (start stop : Nat) : Option String := do
  let p ← text.pos? ⟨start⟩
  let q ← text.pos? ⟨stop⟩
  let part ← text.slice? p q
  return part.copy

section Cuts

variable {text : String}

theorem pos?_eq_some {n : Nat} (h : String.Pos.Raw.IsValid text ⟨n⟩) : text.pos? ⟨n⟩ = some (text.pos ⟨n⟩ h) := by
  have hvalid : String.Pos.Raw.isValidForSlice text.toSlice ⟨n⟩ = true :=
    String.Pos.Raw.isValidForSlice_eq_true_iff.mpr h.toSlice
  simp only [String.pos?, String.Slice.pos?, hvalid, dif_pos, Option.map_some]
  rfl

/-- A text can be cut after any of its characters. -/
theorem exists_splits {done ahead : List Char} (htext : text.toList = done ++ ahead) :
    ∃ h : String.Pos.Raw.IsValid text ⟨byteLength done⟩,
      (text.pos ⟨byteLength done⟩ h).Splits (String.ofList done) (String.ofList ahead) := by
  refine ⟨isValid_iff_boundary.mpr ⟨done, ahead, htext, rfl⟩, ?_, ?_⟩
  · rw [← String.ofList_append, ← htext, String.ofList_toList]
  · rw [String.offset_pos, String.Pos.Raw.ext_iff, String.byteIdx_rawEndPos, utf8ByteSize_ofList]

theorem cutFrom?_of_within {c : Cursor} (hc : c.Within text.toList) :
    cutFrom? text c.pos = some (String.ofList c.rest) := by
  obtain ⟨done, htext, hpos⟩ := hc
  obtain ⟨hvalid, hsplits⟩ := exists_splits htext
  rw [cutFrom?, hpos, pos?_eq_some hvalid, Option.map_some, hsplits.copy_sliceFrom_eq]

theorem cut?_of_within {pos : Nat} {rest : List Char} (run : List Char)
    (hc : Cursor.Within text.toList ⟨pos, run ++ rest⟩) :
    cut? text pos (pos + byteLength run) = some (String.ofList run) := by
  obtain ⟨done, htext, rfl⟩ := hc
  have htext' : text.toList = (done ++ run) ++ rest := by rw [htext, List.append_assoc]
  obtain ⟨hvalid, hsplits⟩ := exists_splits htext
  obtain ⟨hvalid', hsplits'⟩ := exists_splits htext'
  rw [String.ofList_append] at hsplits hsplits'
  obtain ⟨hle, hcopy⟩ := String.copy_slice_eq_iff_splits.mpr ⟨_, _, hsplits, hsplits'⟩
  rw [← byteLength_append, cut?, pos?_eq_some hvalid, pos?_eq_some hvalid']
  simp only [Option.bind_eq_bind, Option.bind_some, String.slice?, dif_pos hle, Option.pure_def, hcopy]

end Cuts

/-- Moves a place in a text and yields a value or an error, or has no result. -/
def Scanner (α : Type) : Type := Nat → Option (Except ReadError α × Nat)

namespace Scanner

variable {α β : Type}

instance : Monad Scanner where
  pure a := fun n => some (.ok a, n)
  bind k f := fun n => match k n with
    | some (.ok a, n') => f a n'
    | some (.error e, n') => some (.error e, n')
    | none => none

/-! ## Blocks and traces -/

/-- On failure the place is set back. -/
def attempt (k : Scanner α) : Scanner α := fun n => match k n with
  | some (.error e, _) => some (.error e, n)
  | r => r

/-- Changes the trace of a failure. -/
def mapTrace (f : List Expectation → List Expectation) (k : Scanner α) : Scanner α := fun n => match k n with
  | some (.error e, n') => some (.error { e with mismatch := { e.mismatch with trace := f e.mismatch.trace } }, n')
  | r => r

/-- Adds an entry to the trace of a failure. -/
def expecting (k : Scanner α) (what : Expectation) : Scanner α := k.mapTrace (· ++ [what])

/-- Forgets the trace of a failure. -/
def untraced (k : Scanner α) : Scanner α := k.mapTrace fun _ => []

/-! ## Single steps -/

/-- Fails with the place `n`. -/
def failAt (n : Nat) : Scanner α := fun here => some (.error ⟨false, n, []⟩, here)

/-- Fails here. -/
def fail : Scanner α := fun n => failAt n n

/-- The place. -/
def here : Scanner Nat := fun n => some (.ok n, n)

/-- Adds to the place. -/
def advance (size : Nat) : Scanner Unit := fun n => some (.ok (), n + size)

section Steps

variable (text : String)

/-- The first character after a cut. -/
def peek : Scanner (Option Char) := fun n => match cutFrom? text n with
  | some ahead => some (.ok ahead.toList.head?, n)
  | none => none

/-- Moves on by the character that comes next. -/
def pop : Scanner (Option Char) := do
  let next ← peek text
  match next with
  | some x => do
    advance x.utf8Size
    return next
  | none => return next

/-- Moves on while the next character satisfies `p`.  A loop that takes more than `budget` rounds has no result. -/
def skipWhile (p : Char → Bool) : Nat → Scanner Unit
  | 0 => fun _ => none
  | budget + 1 => do
    let next ← peek text
    if next.any p then do
      let _ ← pop text
      skipWhile p budget
    else return ()

/-- Moves on to the end of a run of characters that satisfy `p`. -/
def skipRun (p : Char → Bool) : Scanner Unit := skipWhile text p (text.length + 1)

/-- Moves on to the end of white space and tells by how much. -/
def skipWhitespace : Scanner Nat := do
  let start ← here
  skipRun text isWhitespace
  let stop ← here
  return stop - start

/-- Moves on to the end of white space, of which there has to be some. -/
def expectWhitespace : Scanner Unit := do
  let size ← skipWhitespace text
  if 0 < size then return () else fail.expecting (.description "whitespace")

/-- Moves on by a character that satisfies `p`. -/
def expectWhere (p : Char → Bool) : Scanner Char := do
  let next ← peek text
  match next.filter p with
  | some x => do
    let _ ← pop text
    return x
  | none => fail

/-- Moves on by the character `x`. -/
def expectChar (x : Char) : Scanner Char := (expectWhere text (· == x)).expecting (.char x)

/-- Moves on by the characters `xs`. -/
def expectChars : List Char → Scanner Unit
  | [] => return ()
  | x :: xs => do
    let _ ← expectChar text x
    expectChars xs

/-- Moves on by the text `s`, all of it or nothing. -/
def expectText (s : String) : Scanner Unit := (attempt (expectChars text s.toList)).untraced.expecting (.text s)

/-- Moves on to the end of the digits and cuts them out to read the number. -/
def expectNumber : Scanner Nat := do
  let start ← here
  skipRun text Char.isDigit
  let stop ← here
  match cut? text start stop with
  | none => fun _ => none
  | some digits =>
    let value := Nat.ofDigitChars 10 digits.toList 0
    if digits.toList ≠ [] ∧ value < Reader.numberBound then return value
    else (failAt start).expecting (.description "a line number")

/-- Succeeds at the last place. -/
def expectEnd : Scanner Unit := fun n =>
  if text.utf8ByteSize ≤ n then some (.ok (), n) else fail.expecting (.description "end of line") n

end Steps

/-! ## Scanners and readers -/

section Follows

variable {k : Scanner α} {m : Reader α} {g : α → Scanner β} {f : α → Reader β} {text : String}

/-- From any cursor in the text, the scanner has a result, and it is what the reader comes to. -/
def Follows (k : Scanner α) (text : String) (m : Reader α) : Prop :=
  ∀ c, c.Within text.toList → k c.pos = some ((m c).1, (m c).2.pos)

theorem follows_pure (a : α) : (pure a : Scanner α).Follows text (pure a) := fun _ _ => rfl

theorem follows_fail : (fail : Scanner α).Follows text Reader.fail := fun _ _ => rfl

theorem bind_of_ok {n n' : Nat} {a : α} (h : k n = some (.ok a, n')) : (k >>= g) n = g a n' := by
  simp only [Bind.bind, h]

/-- What comes after the reader starts with a cursor in the text again. -/
theorem Follows.bind (hk : k.Follows text m) (hm : m.Keeps text.toList) (hg : ∀ a, (g a).Follows text (f a)) :
    (k >>= g).Follows text (m >>= f) := by
  intro c hc
  have hkc := hk c hc
  rcases hmc : m c with ⟨r, c₁⟩
  obtain ⟨hc₁, -⟩ := hm c r c₁ hc hmc
  rw [hmc] at hkc
  cases r with
  | error e => simp only [Bind.bind, hkc, hmc]
  | ok a =>
    simp only [Bind.bind, hkc, hmc]
    exact hg a c₁ hc₁

theorem follows_ite {p : Prop} [Decidable p] {k' : Scanner α} {m' : Reader α} (h : k.Follows text m)
    (h' : k'.Follows text m') : (if p then k else k').Follows text (if p then m else m') := by
  split
  · exact h
  · exact h'

theorem Follows.attempt (hk : k.Follows text m) : k.attempt.Follows text m.attempt := by
  intro c hc
  unfold Scanner.attempt Reader.attempt
  rw [hk c hc]
  rcases m c with ⟨_ | _, _⟩ <;> rfl

theorem Follows.mapTrace (hk : k.Follows text m) (h : List Expectation → List Expectation) :
    (k.mapTrace h).Follows text (m.mapTrace h) := by
  intro c hc
  unfold Scanner.mapTrace Reader.mapTrace
  rw [hk c hc]
  rcases m c with ⟨_ | _, _⟩ <;> rfl

theorem Follows.expecting (hk : k.Follows text m) (what : Expectation) :
    (k.expecting what).Follows text (m.expecting what) := hk.mapTrace _

/-! ### Single steps -/

theorem peek_eq {c : Cursor} (hc : c.Within text.toList) : peek text c.pos = some (.ok c.rest.head?, c.pos) := by
  rw [peek, cutFrom?_of_within hc]
  simp only [String.toList_ofList]

theorem follows_peek : (peek text).Follows text Reader.peek := fun _ hc => peek_eq hc

theorem follows_pop : (pop text).Follows text Reader.pop := by
  rintro ⟨pos, rest⟩ hc
  rw [pop, bind_of_ok (peek_eq hc)]
  cases rest <;> rfl

theorem follows_expectWhere (p : Char → Bool) : (expectWhere text p).Follows text (Reader.expectWhere p) := by
  rintro ⟨pos, rest⟩ hc
  have hpop := follows_pop _ hc
  rw [expectWhere, bind_of_ok (peek_eq hc)]
  cases rest with
  | nil => rfl
  | cons x rest =>
    by_cases hx : p x = true
    · simp only [List.head?_cons, Option.filter_some, Reader.expectWhere, hx, if_true]
      rw [bind_of_ok hpop]
      rfl
    · simp only [List.head?_cons, Option.filter_some, Reader.expectWhere, hx]
      rfl

theorem follows_expectChar (x : Char) : (expectChar text x).Follows text (Reader.expectChar x) :=
  (follows_expectWhere _).expecting _

theorem follows_expectChars (xs : List Char) : (expectChars text xs).Follows text (Reader.expectChars xs) := by
  induction xs with
  | nil => exact follows_pure ()
  | cons x xs ih => exact (follows_expectChar x).bind (Reader.keeps_expectChar x) fun _ => ih

theorem follows_expectText (s : String) : (expectText text s).Follows text (Reader.expectText s) :=
  ((follows_expectChars _).attempt.mapTrace _).expecting _

/-! ### Runs of characters -/

/-- With a budget of more than the number of characters ahead, the loop comes to the end of the run. -/
theorem skipWhile_eq (p : Char → Bool) {budget : Nat} {c : Cursor} (hc : c.Within text.toList)
    (hbudget : c.rest.length < budget) :
    skipWhile text p budget c.pos = some (.ok (), c.pos + byteLength (c.rest.takeWhile p)) := by
  induction budget generalizing c with
  | zero => exact absurd hbudget (Nat.not_lt_zero _)
  | succ budget ih =>
    obtain ⟨pos, rest⟩ := c
    have hpop := follows_pop _ hc
    rw [skipWhile, bind_of_ok (peek_eq hc)]
    cases rest with
    | nil => rfl
    | cons x rest =>
      by_cases hx : p x = true
      · have hnext := ih (hc.advance [x]) (Nat.lt_of_succ_lt_succ hbudget)
        rw [if_pos (by simpa using hx), bind_of_ok hpop, List.takeWhile_cons_of_pos hx, byteLength_cons,
          ← Nat.add_assoc]
        exact hnext
      · rw [if_neg (by simpa using hx), List.takeWhile_cons_of_neg hx]
        rfl

theorem skipRun_eq (p : Char → Bool) {c : Cursor} (hc : c.Within text.toList) :
    skipRun text p c.pos = some (.ok (), c.pos + byteLength (c.rest.takeWhile p)) := by
  refine skipWhile_eq p hc ?_
  obtain ⟨done, htext, -⟩ := hc
  rw [← String.length_toList, htext, List.length_append]
  omega

theorem follows_skipWhitespace : (skipWhitespace text).Follows text Reader.skipWhitespace := by
  intro c hc
  have hsize := Nat.add_sub_cancel_left c.pos (byteLength (c.rest.takeWhile isWhitespace))
  rw [skipWhitespace, bind_of_ok rfl, bind_of_ok (skipRun_eq _ hc), bind_of_ok rfl, hsize]
  rfl

theorem follows_expectWhitespace : (expectWhitespace text).Follows text Reader.expectWhitespace := by
  refine follows_skipWhitespace.bind Reader.keeps_skipWhitespace fun size => ?_
  cases size with
  | zero => exact follows_fail.expecting _
  | succ size => exact follows_pure ()

theorem follows_expectNumber : (expectNumber text).Follows text Reader.expectNumber := by
  rintro ⟨pos, rest⟩ hc
  have hsplit : rest = rest.takeWhile Char.isDigit ++ rest.dropWhile Char.isDigit :=
    List.takeWhile_append_dropWhile.symm
  have hrun : Cursor.Within text.toList ⟨pos, rest.takeWhile Char.isDigit ++ rest.dropWhile Char.isDigit⟩ :=
    hsplit ▸ hc
  rw [expectNumber, bind_of_ok rfl, bind_of_ok (skipRun_eq _ hc), bind_of_ok rfl, cut?_of_within _ hrun]
  simp only [String.toList_ofList]
  -- both go on behind the digits
  exact follows_ite (follows_pure _) (fun _ _ => rfl) _ (hrun.advance _)

theorem follows_expectEnd : (expectEnd text).Follows text Reader.expectEnd := by
  rintro ⟨pos, rest⟩ hc
  obtain ⟨done, htext, rfl⟩ := hc
  have hsize : text.utf8ByteSize = byteLength done + byteLength rest := by
    rw [← byteLength_toList, htext, byteLength_append]
  cases rest with
  | nil =>
    have hlast : text.utf8ByteSize ≤ byteLength done := Nat.le_of_eq hsize
    rw [expectEnd, if_pos hlast]
    rfl
  | cons x rest =>
    have hlast : ¬ text.utf8ByteSize ≤ byteLength done := by
      have hx := x.utf8Size_pos
      rw [hsize, byteLength_cons]
      omega
    rw [expectEnd, if_neg hlast]
    rfl

end Follows

end Scanner

end Deduction
