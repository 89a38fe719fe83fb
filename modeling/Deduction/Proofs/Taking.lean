import Deduction.Proofs.Writing

/-!
# What readers take

`Reader.Takes m rest P` says that whenever the reader `m` succeeds in front of `rest`, it has taken a stretch of text
off its front, and `P` holds of this stretch and of the value.  It is the converse of `Reader.Reads`: there the text is
given and the reader has to get through it, here the reader got through and the text is described.  There is one rule
for every way to put readers together; what was taken so far is carried along in `P`.

* `Reader.Takes.bind`: one reader after the other.
* `Reader.Takes.optional`: a reader that may fail, provided that it puts the cursor back.
* `Reader.Takes.readAll`: texts that are read as a whole.
-/

namespace Deduction

namespace Reader

variable {α β : Type} {m : Reader α} {f : α → Reader β} {a : α} {rest : List Char} {P Q : List Char → α → Prop}
  {R : List Char → β → Prop}

/-- Where the reader succeeds in front of `rest`, the text that it takes and the value that it yields satisfy `P`. -/
def Takes (m : Reader α) (rest : List Char) (P : List Char → α → Prop) : Prop :=
  ∀ pos a c, m ⟨pos, rest⟩ = (.ok a, c) → ∃ text, rest = text ++ c.rest ∧ P text a

/-- A failure leaves the cursor where it was. -/
def Restores (m : Reader α) : Prop := ∀ c e c', m c = (.error e, c') → c' = c

/-! ## Rules -/

theorem Takes.mono (h : m.Takes rest P) (hPQ : ∀ text a, P text a → Q text a) : m.Takes rest Q := by
  intro pos a c hm
  obtain ⟨text, hrest, hP⟩ := h pos a c hm
  exact ⟨text, hrest, hPQ text a hP⟩

/-- What is known of every value of the reader is known of those that it yields here. -/
theorem Takes.and_yields {Q : α → Prop} (hm : m.Takes rest P) (hQ : m.Yields Q) :
    m.Takes rest fun text a => P text a ∧ Q a := by
  intro pos a c h
  obtain ⟨text, hrest, hP⟩ := hm pos a c h
  exact ⟨text, hrest, hP, hQ ⟨pos, rest⟩ a c h⟩

/-- A reader that never succeeds. -/
theorem Yields.takes (h : m.Yields fun _ => False) : m.Takes rest P := fun pos a c hm => (h ⟨pos, rest⟩ a c hm).elim

theorem takes_pure (h : P [] a) : (pure a : Reader α).Takes rest P := by
  intro pos b c hm
  cases hm
  exact ⟨[], rfl, h⟩

theorem Takes.bind (hm : m.Takes rest P)
    (hf : ∀ text after a, rest = text ++ after → P text a → (f a).Takes after fun more b => R (text ++ more) b) :
    (m >>= f).Takes rest R := by
  intro pos b c h
  rcases hmc : m ⟨pos, rest⟩ with ⟨r, c₁⟩
  cases r with
  | error e =>
    have hb : (m >>= f) ⟨pos, rest⟩ = (.error e, c₁) := by simp only [Bind.bind, hmc]
    rw [hb] at h
    cases h
  | ok a =>
    have hb : (m >>= f) ⟨pos, rest⟩ = f a c₁ := by simp only [Bind.bind, hmc]
    rw [hb] at h
    obtain ⟨text, hrest, hP⟩ := hm pos a c₁ hmc
    obtain ⟨more, hafter, hR⟩ := hf text c₁.rest a hrest hP c₁.pos b c h
    exact ⟨text ++ more, by rw [hrest, hafter, List.append_assoc], hR⟩

theorem Takes.mapTrace (hm : m.Takes rest P) (g : List Expectation → List Expectation) :
    (m.mapTrace g).Takes rest P := fun pos a c h => hm pos a c (mapTrace_eq_ok.mp h)

theorem Takes.expecting (hm : m.Takes rest P) (what : Expectation) : (m.expecting what).Takes rest P := hm.mapTrace _

theorem Takes.commit (hm : m.Takes rest P) : m.commit.Takes rest P := fun pos a c h => hm pos a c (commit_eq_ok.mp h)

theorem Takes.attempt (hm : m.Takes rest P) : m.attempt.Takes rest P :=
  fun pos a c h => hm pos a c (attempt_eq_ok.mp h)

/-- Either the reader succeeds, or nothing is taken. -/
theorem Takes.optional (hm : m.Takes rest P) (hr : m.Restores) :
    m.optional.Takes rest fun text o => (o = none ∧ text = []) ∨ ∃ a, o = some a ∧ P text a := by
  intro pos o c h
  unfold Reader.optional at h
  rcases hmc : m ⟨pos, rest⟩ with ⟨r, c₁⟩
  rw [hmc] at h
  cases r with
  | error e =>
    cases h
    obtain rfl := hr _ e _ hmc
    exact ⟨[], rfl, Or.inl ⟨rfl, rfl⟩⟩
  | ok b =>
    cases h
    obtain ⟨text, hrest, hP⟩ := hm pos b _ hmc
    exact ⟨text, hrest, Or.inr ⟨b, rfl, hP⟩⟩

theorem takes_withBudget {g : Nat → Reader α} (h : ∀ n, (g n).Takes rest P) : (withBudget g).Takes rest P :=
  fun pos a c hm => h _ pos a c hm

theorem takes_checkpoint_bind {f : Cursor → Reader β} (h : ∀ c, (f c).Takes rest R) :
    (checkpoint >>= f).Takes rest R := fun pos b c hm => h ⟨pos, rest⟩ pos b c hm

/-! ### Failures that put the cursor back -/

theorem restores_attempt (m : Reader α) : m.attempt.Restores := by
  intro c e c' h
  unfold Reader.attempt at h
  rcases hmc : m c with ⟨r, c₁⟩
  rw [hmc] at h
  cases r with
  | error e' =>
    cases h
    rfl
  | ok a => cases h

theorem Restores.mapTrace (hm : m.Restores) (g : List Expectation → List Expectation) : (m.mapTrace g).Restores := by
  intro c e c' h
  unfold Reader.mapTrace at h
  rcases hmc : m c with ⟨r, c₁⟩
  rw [hmc] at h
  cases r with
  | error e' =>
    cases h
    exact hm c e' c' hmc
  | ok a => cases h

theorem Restores.expecting (hm : m.Restores) (what : Expectation) : (m.expecting what).Restores := hm.mapTrace _

theorem restores_expectWhere (p : Char → Bool) : (expectWhere p).Restores := by
  rintro ⟨pos, rest⟩ e c' h
  cases rest with
  | nil =>
    cases h
    rfl
  | cons y rest =>
    by_cases hy : p y = true
    · simp only [expectWhere, hy, if_true] at h
      cases h
    · simp only [expectWhere, hy] at h
      cases h
      rfl

theorem restores_expectChar (x : Char) : (expectChar x).Restores := (restores_expectWhere _).expecting _

theorem restores_expectText (s : String) : (expectText s).Restores :=
  ((restores_attempt _).mapTrace _).expecting _

theorem restores_expectWhitespace : expectWhitespace.Restores := by
  rintro ⟨pos, rest⟩ e c' h
  have hread : expectWhitespace ⟨pos, rest⟩ =
      (if byteLength (rest.takeWhile isWhitespace) = 0 then fail.expecting (.description "whitespace") else pure ())
        ⟨pos + byteLength (rest.takeWhile isWhitespace), rest.dropWhile isWhitespace⟩ := rfl
  rw [hread] at h
  by_cases hnone : byteLength (rest.takeWhile isWhitespace) = 0
  · -- nothing has been skipped
    have hlength := length_le_byteLength (rest.takeWhile isWhitespace)
    have htake : rest.takeWhile isWhitespace = [] := List.length_eq_zero_iff.mp (by omega)
    have hsplit : rest.takeWhile isWhitespace ++ rest.dropWhile isWhitespace = rest := List.takeWhile_append_dropWhile
    rw [htake, List.nil_append] at hsplit
    rw [if_pos hnone, hnone, hsplit] at h
    cases h
    rfl
  · rw [if_neg hnone] at h
    cases h

/-! ## Single steps -/

theorem takes_peek : peek.Takes rest fun text next => text = [] ∧ next = rest.head? := by
  intro pos a c h
  cases h
  exact ⟨[], rfl, rfl, rfl⟩

theorem takes_pop : pop.Takes rest fun text x => text = x.toList ∧ x = rest.head? := by
  intro pos a c h
  cases rest with
  | nil =>
    cases h
    exact ⟨[], rfl, rfl, rfl⟩
  | cons x rest =>
    cases h
    exact ⟨[x], rfl, rfl, rfl⟩

theorem takes_takeWhile (p : Char → Bool) :
    (takeWhile p).Takes rest fun text run => run = text ∧ ∀ c ∈ text, p c = true := by
  intro pos a c h
  cases h
  exact ⟨rest.takeWhile p, List.takeWhile_append_dropWhile.symm, rfl, List.all_eq_true.mp List.all_takeWhile⟩

theorem takes_skipWhitespace :
    skipWhitespace.Takes rest fun text n => isBlank text = true ∧ n = byteLength text := by
  refine (takes_takeWhile isWhitespace).bind fun text after run _ hrun => takes_pure ?_
  obtain ⟨rfl, hall⟩ := hrun
  rw [List.append_nil]
  exact ⟨isBlank_iff.mpr hall, rfl⟩

theorem takes_expectWhitespace :
    expectWhitespace.Takes rest fun text _ => isBlank text = true ∧ text ≠ [] := by
  refine takes_skipWhitespace.bind fun text after n _ hn => ?_
  obtain ⟨hblank, rfl⟩ := hn
  split
  next => exact (yields_fail.expecting _).takes
  next hne =>
    refine takes_pure ?_
    rw [List.append_nil]
    exact ⟨hblank, fun htext => hne (by rw [htext, byteLength_nil])⟩

theorem takes_expectChar (x : Char) : (expectChar x).Takes rest fun text _ => text = [x] := by
  refine Takes.expecting (fun pos a c h => ?_) _
  cases rest with
  | nil => cases h
  | cons y rest =>
    by_cases hy : (y == x) = true
    · simp only [expectWhere, hy, if_true] at h
      cases h
      exact ⟨[a], rfl, by rw [beq_iff_eq.mp hy]⟩
    · simp only [expectWhere, hy] at h
      cases h

theorem takes_expectChars (xs : List Char) : (expectChars xs).Takes rest fun text _ => text = xs := by
  induction xs generalizing rest with
  | nil => exact takes_pure rfl
  | cons x xs ih =>
    refine (takes_expectChar x).bind fun text after _ _ htext => ih.mono fun more _ hmore => ?_
    rw [htext, hmore, List.singleton_append]

theorem takes_expectText (s : String) : (expectText s).Takes rest fun text _ => text = s.toList :=
  ((takes_expectChars _).attempt.mapTrace _).expecting _

theorem takes_expectEnd : expectEnd.Takes rest fun _ _ => rest = [] := by
  intro pos a c h
  cases rest with
  | nil =>
    cases h
    exact ⟨[], rfl, rfl⟩
  | cons x rest => cases h

/-! ## Whole texts -/

/-- **What is left of a text that is read as a whole is blank.** -/
theorem Takes.readAll (hm : m.Takes rest P) (h : m.readAll rest = .ok a) :
    ∃ text w, rest = text ++ w ∧ isBlank w = true ∧ P text a := by
  have hwhole : (do
      let a ← m
      let _ ← skipWhitespace
      expectEnd
      return a : Reader α).Takes rest fun _ a => ∃ text w, rest = text ++ w ∧ isBlank w = true ∧ P text a := by
    refine hm.bind fun text after a hrest hP => takes_skipWhitespace.bind fun w left n hafter hw => ?_
    refine takes_expectEnd.bind fun _ _ _ _ hleft => takes_pure ⟨text, w, ?_, hw.1, hP⟩
    rw [hrest, hafter, hleft, List.append_nil]
  obtain ⟨-, -, hP⟩ := hwhole 0 a _ (Prod.ext h rfl)
  exact hP

end Reader

end Deduction
