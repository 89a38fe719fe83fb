import Mathlib.Tactic.Common
import Deduction.Proof.Grammar

/-!
# What readers keep

Readers step over whole characters, so they never leave the cursor inside one, nor do they report an error there.
`Reader.Keeps m text` says this of the reader `m` for a given text.  Only `Reader.rewind` could break it, and it goes
back to places where a cursor has been.

* `isValid_iff_boundary`: boundaries are what the UTF-8 form of a text allows to cut at.
* `Reader.Keeps.bind`, `Reader.keeps_checkpoint_bind`: the rules for one reader after the other.
* `Line.boundary_of_parse`: a line that cannot be read breaks off between two of its characters.
-/

namespace Deduction

/-- The place `n`, in bytes, is between two characters of the text or at one of its ends. -/
def Boundary (text : List Char) (n : Nat) : Prop := ∃ done ahead, text = done ++ ahead ∧ n = byteLength done

theorem utf8ByteSize_ofList (text : List Char) : (String.ofList text).utf8ByteSize = byteLength text := by
  induction text with
  | nil => rfl
  | cons c text ih =>
    rw [String.ofList_cons, String.utf8ByteSize_append, String.utf8ByteSize_singleton, ih, byteLength_cons]

theorem byteLength_toList (s : String) : byteLength s.toList = s.utf8ByteSize := by
  rw [← utf8ByteSize_ofList, String.ofList_toList]

theorem isValid_iff_boundary {s : String} {n : Nat} : String.Pos.Raw.IsValid s ⟨n⟩ ↔ Boundary s.toList n := by
  rw [String.Pos.Raw.isValid_iff_exists_append]
  constructor
  · rintro ⟨s₁, s₂, rfl, hn⟩
    refine ⟨s₁.toList, s₂.toList, String.toList_append, ?_⟩
    rw [byteLength_toList, ← String.byteIdx_rawEndPos, ← hn]
  · rintro ⟨done, ahead, hs, rfl⟩
    refine ⟨String.ofList done, String.ofList ahead, ?_, ?_⟩
    · rw [← String.ofList_append, ← hs, String.ofList_toList]
    · rw [← utf8ByteSize_ofList]
      rfl

theorem Boundary.le {text : List Char} {n : Nat} (h : Boundary text n) : n ≤ byteLength text := by
  obtain ⟨done, ahead, rfl, rfl⟩ := h
  rw [byteLength_append]
  exact Nat.le_add_right ..

theorem Cursor.within_start (text : List Char) : (Cursor.start text).Within text := ⟨[], rfl, rfl⟩

theorem Cursor.Within.boundary {text : List Char} {c : Cursor} (h : c.Within text) : Boundary text c.pos := by
  obtain ⟨done, htext, hpos⟩ := h
  exact ⟨done, c.rest, htext, hpos⟩

/-- A cursor moves over the characters ahead of it. -/
theorem Cursor.Within.advance {text rest : List Char} {pos : Nat} (run : List Char)
    (h : Cursor.Within text ⟨pos, run ++ rest⟩) :
    Cursor.Within text ⟨pos + byteLength run, rest⟩ := by
  obtain ⟨done, htext, rfl⟩ := h
  exact ⟨done ++ run, by rw [htext, List.append_assoc], by rw [byteLength_append]⟩

namespace Reader

variable {α β : Type} {m : Reader α} {f : α → Reader β} {text : List Char}

/-- From a cursor in the text, the reader leaves the cursor in the text; and if it fails, then at a boundary. -/
def Keeps (m : Reader α) (text : List Char) : Prop :=
  ∀ c r c', c.Within text → m c = (r, c') → c'.Within text ∧ ∀ e, r = .error e → Boundary text e.mismatch.place

/-! ## Rules -/

/-- A reader that succeeds need only keep the cursor in the text. -/
theorem keeps_of_ok (h : ∀ c, c.Within text → ∃ a c', m c = (.ok a, c') ∧ c'.Within text) : m.Keeps text := by
  intro c r c' hc hm
  obtain ⟨a, c₁, hok, hc₁⟩ := h c hc
  rw [hok] at hm
  cases hm
  refine ⟨hc₁, fun e he => ?_⟩
  cases he

theorem keeps_pure (a : α) : (pure a : Reader α).Keeps text := keeps_of_ok fun c hc => ⟨a, c, rfl, hc⟩

theorem keeps_fail : (fail : Reader α).Keeps text := by
  intro c r c' hc h
  cases h
  refine ⟨hc, fun e he => ?_⟩
  cases he
  exact hc.boundary

theorem Keeps.bind (hm : m.Keeps text) (hf : ∀ a, (f a).Keeps text) : (m >>= f).Keeps text := by
  intro c r c' hc h
  rcases hmc : m c with ⟨r₁, c₁⟩
  obtain ⟨hc₁, herr⟩ := hm c r₁ c₁ hc hmc
  cases r₁ with
  | error e =>
    have hb : (m >>= f) c = (.error e, c₁) := by simp only [Bind.bind, hmc]
    rw [hb] at h
    cases h
    refine ⟨hc₁, fun e' he => ?_⟩
    cases he
    exact herr e rfl
  | ok a =>
    have hb : (m >>= f) c = f a c₁ := by simp only [Bind.bind, hmc]
    rw [hb] at h
    exact hf a c₁ r c' hc₁ h

theorem keeps_ite {p : Prop} [Decidable p] {m m' : Reader α} (h : m.Keeps text) (h' : m'.Keeps text) :
    (if p then m else m').Keeps text := by
  split
  · exact h
  · exact h'

/-- Blocks and traces leave the place of a failure as it is, and the cursor goes where it was left or back. -/
theorem Keeps.of_outcome {g : Reader β} (hm : m.Keeps text) (hcursor : ∀ c, (g c).2 = (m c).2 ∨ (g c).2 = c)
    (herror : ∀ c e, (g c).1 = .error e → ∃ e', (m c).1 = .error e' ∧ e'.mismatch.place = e.mismatch.place) :
    g.Keeps text := by
  intro c r c' hc hg
  obtain ⟨hc₁, herr⟩ := hm c _ _ hc rfl
  have hgc := hcursor c
  have hge := herror c
  rw [hg] at hgc hge
  simp only at hgc hge
  constructor
  · rcases hgc with h | h
    · exact h ▸ hc₁
    · exact h ▸ hc
  · intro e he
    obtain ⟨e', he', hplace⟩ := hge e he
    exact hplace ▸ herr e' he'

theorem Keeps.mapTrace (hm : m.Keeps text) (g : List Expectation → List Expectation) : (m.mapTrace g).Keeps text := by
  refine hm.of_outcome (fun c => Or.inl ?_) fun c e he => ?_
  · unfold Reader.mapTrace
    rcases m c with ⟨_ | _, _⟩ <;> rfl
  · unfold Reader.mapTrace at he
    rcases hmc : m c with ⟨e' | a, c₁⟩ <;> rw [hmc] at he <;> cases he
    exact ⟨_, rfl, rfl⟩

theorem Keeps.expecting (hm : m.Keeps text) (what : Expectation) : (m.expecting what).Keeps text := hm.mapTrace _

theorem Keeps.commit (hm : m.Keeps text) : m.commit.Keeps text := by
  refine hm.of_outcome (fun c => Or.inl ?_) fun c e he => ?_
  · unfold Reader.commit
    rcases m c with ⟨_ | _, _⟩ <;> rfl
  · unfold Reader.commit at he
    rcases hmc : m c with ⟨e' | a, c₁⟩ <;> rw [hmc] at he <;> cases he
    exact ⟨_, rfl, rfl⟩

theorem Keeps.attempt (hm : m.Keeps text) : m.attempt.Keeps text := by
  refine hm.of_outcome (fun c => ?_) fun c e he => ?_
  · unfold Reader.attempt
    rcases m c with ⟨_ | _, _⟩
    · exact Or.inr rfl
    · exact Or.inl rfl
  · unfold Reader.attempt at he
    rcases hmc : m c with ⟨e' | a, c₁⟩ <;> rw [hmc] at he <;> cases he
    exact ⟨_, rfl, rfl⟩

theorem Keeps.optional (hm : m.Keeps text) : m.optional.Keeps text := by
  refine hm.of_outcome (fun c => Or.inl ?_) fun c e he => ?_
  · unfold Reader.optional
    rcases m c with ⟨_ | _, _⟩ <;> rfl
  · unfold Reader.optional at he
    rcases hmc : m c with ⟨e' | a, c₁⟩ <;> rw [hmc] at he <;> cases he

theorem keeps_withBudget {g : Nat → Reader α} (h : ∀ n, (g n).Keeps text) : (withBudget g).Keeps text :=
  fun c r c' hc hm => h _ c r c' hc hm

/-- A checkpoint is a place in the text. -/
theorem keeps_checkpoint_bind {f : Cursor → Reader β} (h : ∀ c, c.Within text → (f c).Keeps text) :
    (checkpoint >>= f).Keeps text := fun c r c' hc hm => h c hc c r c' hc hm

theorem keeps_rewind {place : Cursor} (h : place.Within text) : (rewind place).Keeps text :=
  keeps_of_ok fun _ _ => ⟨(), place, rfl, h⟩

/-! ## Single steps -/

theorem keeps_peek : peek.Keeps text := keeps_of_ok fun c hc => ⟨c.rest.head?, c, rfl, hc⟩

theorem keeps_pop : pop.Keeps text := by
  refine keeps_of_ok ?_
  rintro ⟨pos, rest⟩ hc
  cases rest with
  | nil => exact ⟨none, _, rfl, hc⟩
  | cons x rest => exact ⟨some x, _, rfl, hc.advance [x]⟩

theorem keeps_takeWhile (p : Char → Bool) : (takeWhile p).Keeps text := by
  refine keeps_of_ok ?_
  rintro ⟨pos, rest⟩ hc
  have hsplit : rest = rest.takeWhile p ++ rest.dropWhile p := List.takeWhile_append_dropWhile.symm
  exact ⟨_, _, rfl, Cursor.Within.advance _ (hsplit ▸ hc)⟩

theorem keeps_skipWhitespace : skipWhitespace.Keeps text := (keeps_takeWhile _).bind fun _ => keeps_pure _

theorem keeps_expectWhitespace : expectWhitespace.Keeps text :=
  keeps_skipWhitespace.bind fun _ => keeps_ite (keeps_fail.expecting _) (keeps_pure ())

theorem keeps_expectWhere (p : Char → Bool) : (expectWhere p).Keeps text := by
  rintro ⟨pos, rest⟩ r c' hc h
  cases rest with
  | nil => exact keeps_fail _ r c' hc h
  | cons y rest =>
    by_cases hy : p y = true
    · simp only [expectWhere, hy, if_true] at h
      cases h
      refine ⟨hc.advance [y], fun e he => ?_⟩
      cases he
    · simp only [expectWhere, hy] at h
      exact keeps_fail _ r c' hc h

theorem keeps_expectChar (x : Char) : (expectChar x).Keeps text := (keeps_expectWhere _).expecting _

theorem keeps_expectChars (xs : List Char) : (expectChars xs).Keeps text := by
  induction xs with
  | nil => exact keeps_pure ()
  | cons x xs ih => exact (keeps_expectChar x).bind fun _ => ih

theorem keeps_expectText (s : String) : (expectText s).Keeps text :=
  ((keeps_expectChars _).attempt.mapTrace _).expecting _

theorem keeps_expectNumber : expectNumber.Keeps text := by
  refine keeps_checkpoint_bind fun start hstart => (keeps_takeWhile _).bind fun digits => ?_
  refine keeps_ite (keeps_pure _) fun c r c' hc h => ?_
  -- the digits have been read, but the error is in front of them
  cases h
  refine ⟨hc, fun e he => ?_⟩
  cases he
  exact hstart.boundary

theorem keeps_expectEnd : expectEnd.Keeps text := by
  rintro ⟨pos, rest⟩ r c' hc h
  cases rest with
  | nil => exact keeps_pure () _ r c' hc h
  | cons x rest => exact keeps_fail.expecting _ _ r c' hc h

/-- **Texts that cannot be read break off at a boundary.** -/
theorem Keeps.readAll (hm : m.Keeps text) {e : ReadError} (h : m.readAll text = .error e) :
    Boundary text e.mismatch.place := by
  have hwhole : (do
      let a ← m
      let _ ← skipWhitespace
      expectEnd
      return a : Reader α).Keeps text :=
    hm.bind fun a => keeps_skipWhitespace.bind fun _ => keeps_expectEnd.bind fun _ => keeps_pure a
  exact (hwhole (Cursor.start text) _ _ (Cursor.within_start text) rfl).2 e h

end Reader

open Reader

variable {text : List Char}

/-! ## Sentences -/

namespace Sentence

theorem keeps_readConnectiveOf (ops : List Connective) : (readConnectiveOf ops).Keeps text := by
  induction ops with
  | nil => exact keeps_fail.expecting _
  | cons op ops ih =>
    unfold readConnectiveOf
    refine (keeps_expectText op.symbol).optional.bind fun found => ?_
    cases found with
    | some _ => exact keeps_pure op
    | none => exact ih

theorem keeps_readWithin (vars : Bool) (budget : Nat) : (readWithin vars budget).Keeps text := by
  induction budget with
  | zero => exact keeps_fail.expecting _
  | succ budget ih =>
    unfold readWithin
    refine keeps_skipWhitespace.bind fun _ => keeps_peek.bind fun next => ?_
    split
    · -- a negation
      exact keeps_pop.bind fun _ => ih.commit.bind fun s => keeps_pure _
    · -- a binary connective in parentheses
      refine keeps_pop.bind fun _ => Keeps.commit (ih.bind fun lhs => keeps_skipWhitespace.bind fun _ => ?_)
      refine (keeps_readConnectiveOf _).bind fun op => ih.bind fun rhs => keeps_skipWhitespace.bind fun _ => ?_
      exact (keeps_expectChar ')').bind fun _ => keeps_pure _
    · -- a letter or a variable
      refine keeps_ite (keeps_pop.bind fun _ => keeps_pure _) (keeps_ite ?_ (keeps_fail.expecting _))
      exact keeps_pop.bind fun _ => keeps_pure _
    · exact keeps_fail.expecting _

theorem keeps_reader (vars : Bool) : (reader vars).Keeps text := keeps_withBudget (keeps_readWithin vars)

theorem keeps_topReader (vars : Bool) : (topReader vars).Keeps text := by
  unfold topReader
  refine (keeps_reader vars).bind fun lhs => ?_
  refine (keeps_skipWhitespace.bind fun _ => keeps_readConnectiveOf _).attempt.optional.bind fun op => ?_
  cases op with
  | some op => exact (keeps_reader vars).commit.bind fun rhs => keeps_pure _
  | none => exact keeps_pure lhs

end Sentence

/-! ## Lines -/

namespace Line

theorem keeps_readBars : readBars.Keeps text :=
  (keeps_takeWhile _).bind fun _ => keeps_ite (keeps_fail.expecting _) (keeps_pure _)

theorem keeps_readNumber : readNumber.Keeps text := by
  refine keeps_checkpoint_bind fun start hstart => keeps_expectNumber.bind fun n => ?_
  cases n with
  | zero => exact (keeps_rewind hstart).bind fun _ => keeps_fail.expecting _
  | succ n => exact keeps_pure n

theorem keeps_readCitation : readCitation.Keeps text := by
  refine keeps_skipWhitespace.bind fun _ => keeps_readNumber.bind fun first => keeps_skipWhitespace.bind fun _ => ?_
  refine (keeps_expectChar '-').optional.bind fun dash => ?_
  cases dash with
  | some _ => exact keeps_skipWhitespace.bind fun _ => keeps_readNumber.bind fun last => keeps_pure _
  | none => exact keeps_pure _

theorem keeps_readMoreCitations (budget : Nat) : (readMoreCitations budget).Keeps text := by
  induction budget with
  | zero => exact keeps_fail.expecting _
  | succ budget ih =>
    unfold readMoreCitations
    refine keeps_skipWhitespace.bind fun _ => (keeps_expectChar ',').optional.bind fun comma => ?_
    cases comma with
    | some _ => exact keeps_readCitation.bind fun citation => ih.bind fun more => keeps_pure _
    | none => exact (keeps_expectChar ')').bind fun _ => keeps_pure _

theorem keeps_readCitations : readCitations.Keeps text := by
  refine (keeps_expectChar '(').optional.bind fun opening => ?_
  cases opening with
  | some _ =>
    refine Keeps.commit (keeps_readCitation.bind fun citation => ?_)
    exact (keeps_withBudget keeps_readMoreCitations).bind fun more => keeps_pure _
  | none => exact keeps_pure _

theorem keeps_readJustification : readJustification.Keeps text := by
  refine (keeps_takeWhile _).bind fun name => keeps_ite (keeps_fail.expecting _) ?_
  refine keeps_checkpoint_bind fun start hstart => keeps_readCitations.bind fun citations => ?_
  exact keeps_ite ((keeps_rewind hstart).bind fun _ => keeps_fail.expecting _) (keeps_pure _)

theorem keeps_readStep (source depth : Nat) : (readStep source depth).Keeps text := by
  refine keeps_skipWhitespace.bind fun _ => keeps_readNumber.bind fun number => keeps_expectWhitespace.bind fun _ => ?_
  refine (Sentence.keeps_topReader false).bind fun sentence => keeps_expectWhitespace.bind fun _ => ?_
  exact keeps_readJustification.bind fun reason => keeps_pure _

theorem keeps_reader (source : Nat) : (reader source).Keeps text := by
  refine keeps_skipWhitespace.bind fun _ => keeps_readBars.bind fun depth => ?_
  refine (keeps_expectChar '-').optional.bind fun dash => ?_
  cases dash with
  | some _ => exact keeps_pure _
  | none => exact (keeps_readStep source depth).commit.expecting _

/-- **A line that cannot be read breaks off at a boundary.** -/
theorem boundary_of_parse {text : String} {source : Nat} {e : ReadError} (h : parse text source = .error e) :
    Boundary text.toList e.mismatch.place :=
  (keeps_reader source).readAll h

end Line

end Deduction
