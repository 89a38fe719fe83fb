import Deduction.Proofs.Writing

/-!
# Where readers fail

`Reader.FailsAt m done ahead` says that the reader `m`, in front of `done` and then `ahead`, fails, and that the place
of its error is between the two.  It completes `Reader.Reads`: a reader that gets through a part of the text and then
fails, fails behind that part.  Where the cursor is left does not matter, since a failure is not recovered from here.

* `Reader.Reads.bind_failsAt`, `Reader.FailsAt.bind`: one reader after the other.
* `Reader.Rejects`: the same for texts that are read as a whole.
-/

namespace Deduction

namespace Reader

variable {α β : Type} {m : Reader α} {f : α → Reader β} {a : α} {t done ahead w : List Char}

/-- In front of `done` and then `ahead`, the reader fails, and the place of the error is between the two. -/
def FailsAt (m : Reader α) (done ahead : List Char) : Prop :=
  ∀ pos, ∃ e c, m ⟨pos, done ++ ahead⟩ = (.error e, c) ∧ e.mismatch.place = pos + byteLength done

/-- The text `done ++ ahead` is not read, and the place of the error is between its two parts. -/
def Rejects (m : Reader α) (done ahead : List Char) : Prop :=
  ∃ e, m.readAll (done ++ ahead) = .error e ∧ e.mismatch.place = byteLength done

/-! ## Rules -/

theorem failsAt_fail : (fail : Reader α).FailsAt [] ahead := fun _ => ⟨_, _, rfl, rfl⟩

theorem FailsAt.bind (hm : m.FailsAt done ahead) : (m >>= f).FailsAt done ahead := by
  intro pos
  obtain ⟨e, c, he, hplace⟩ := hm pos
  exact ⟨e, c, by simp only [Bind.bind, he], hplace⟩

/-- A reader that gets through its part, before one that fails. -/
theorem Reads.bind_failsAt (hm : m.Reads t (done ++ ahead) a) (hf : (f a).FailsAt done ahead) :
    (m >>= f).FailsAt (t ++ done) ahead := by
  intro pos
  obtain ⟨e, c, he, hplace⟩ := hf (pos + byteLength t)
  refine ⟨e, c, ?_, by rw [hplace, byteLength_append, Nat.add_assoc]⟩
  rw [List.append_assoc]
  simp only [Bind.bind, hm pos, he]

/-- A reader that only looks, before one that fails. -/
theorem Reads.bind_nil_failsAt (hm : m.Reads [] (done ++ ahead) a) (hf : (f a).FailsAt done ahead) :
    (m >>= f).FailsAt done ahead :=
  hm.bind_failsAt hf

theorem FailsAt.mapTrace (hm : m.FailsAt done ahead) (g : List Expectation → List Expectation) :
    (m.mapTrace g).FailsAt done ahead := by
  intro pos
  obtain ⟨e, c, he, hplace⟩ := hm pos
  refine ⟨{ e with mismatch := { e.mismatch with trace := g e.mismatch.trace } }, c, ?_, hplace⟩
  simp only [Reader.mapTrace, he]

theorem FailsAt.expecting (hm : m.FailsAt done ahead) (what : Expectation) : (m.expecting what).FailsAt done ahead :=
  hm.mapTrace _

theorem FailsAt.commit (hm : m.FailsAt done ahead) : m.commit.FailsAt done ahead := by
  intro pos
  obtain ⟨e, c, he, hplace⟩ := hm pos
  refine ⟨{ e with committed := true }, c, ?_, hplace⟩
  simp only [Reader.commit, he]

theorem failsAt_withBudget {g : Nat → Reader α} (h : (g ((done ++ ahead).length + 1)).FailsAt done ahead) :
    (withBudget g).FailsAt done ahead := fun pos => h pos

/-! ## Single steps -/

theorem failsAt_expectChar {x : Char} (h : Stops (· == x) ahead) : (expectChar x).FailsAt [] ahead := by
  refine FailsAt.expecting (fun pos => ?_) _
  cases ahead with
  | nil => exact ⟨_, _, rfl, rfl⟩
  | cons c ahead =>
    have hc : (c == x) = false := by simpa using h
    exact ⟨_, _, by simp only [List.nil_append, expectWhere, hc]; rfl, rfl⟩

theorem failsAt_expectEnd (h : ahead ≠ []) : expectEnd.FailsAt [] ahead := by
  intro pos
  cases ahead with
  | nil => exact absurd rfl h
  | cons c ahead => exact ⟨_, _, rfl, rfl⟩

/-! ## Whole texts -/

theorem rejects_of_failsAt (h : (do
    let a ← m
    let _ ← skipWhitespace
    expectEnd
    return a : Reader α).FailsAt done ahead) : m.Rejects done ahead := by
  obtain ⟨e, c, he, hplace⟩ := h 0
  exact ⟨e, congrArg Prod.fst he, by rw [hplace, Nat.zero_add]⟩

theorem FailsAt.rejects (h : m.FailsAt done ahead) : m.Rejects done ahead := rejects_of_failsAt h.bind

/-- **A text that goes on after what is read, and not with white space, is rejected where it goes on.** -/
theorem Reads.rejects (h : m.Reads t (w ++ ahead) a) (hw : isBlank w = true) (hs : Stops isWhitespace ahead)
    (hne : ahead ≠ []) : m.Rejects (t ++ w) ahead := by
  have hend : (skipWhitespace >>= fun _ => do
      expectEnd
      return a).FailsAt (w ++ []) ahead :=
    Reads.bind_failsAt (reads_skipWhitespace hw hs) (failsAt_expectEnd hne).bind
  rw [List.append_nil] at hend
  exact rejects_of_failsAt (h.bind_failsAt hend)

/-- The relation `B` tells where texts break off for the reader: they are rejected there, up to there they could have
been read, and three more characters are enough to tell. -/
structure Diagnoses (m : Reader α) (B : List Char → List Char → Prop) : Prop where
  /-- A text is read or breaks off. -/
  total : ∀ text, (∃ a, m.readAll text = .ok a) ∨ ∃ done ahead, text = done ++ ahead ∧ B done ahead
  rejects : ∀ {done ahead}, B done ahead → m.Rejects done ahead
  viable : ∀ {done ahead}, B done ahead → ∃ more a, m.readAll (done ++ more) = .ok a
  settled : ∀ {done ahead}, B done ahead → 3 ≤ ahead.length → ∀ more, B done (ahead ++ more)

/-- **The error of a text that is not read is where the text breaks off.** -/
theorem Diagnoses.error_place {B : List Char → List Char → Prop} (hB : m.Diagnoses B) {text : List Char} {e : ReadError}
    (h : m.readAll text = .error e) : ∃ done ahead, text = done ++ ahead ∧ e.mismatch.place = byteLength done ∧
      (∃ more a, m.readAll (done ++ more) = .ok a) ∧
      (3 ≤ ahead.length → ∀ more a, m.readAll (text ++ more) ≠ .ok a) := by
  rcases hB.total text with ⟨a, ha⟩ | ⟨done, ahead, rfl, hb⟩
  · rw [ha] at h
    cases h
  · obtain ⟨e', he', hplace⟩ := hB.rejects hb
    rw [he'] at h
    cases h
    refine ⟨done, ahead, rfl, hplace, hB.viable hb, fun hlen more a ha => ?_⟩
    obtain ⟨e', he', -⟩ := hB.rejects (hB.settled hb hlen more)
    rw [List.append_assoc, he'] at ha
    cases ha

end Reader

end Deduction
