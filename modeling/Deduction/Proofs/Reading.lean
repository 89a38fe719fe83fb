import Mathlib.Tactic.Common
import Deduction.Proof.Grammar

/-!
# What readers yield

`Reader.Yields m P` says that every value the reader `m` can yield satisfies `P`, whatever the text and the place in it.
There is one rule for every way to put readers together; with them, what a phrase of the grammar yields is read off its
reader.

* `Sentence.topReader_yields`: a sentence that is read without schema variables is ground.
* `Line.step_of_parse`: the steps that lines can be read as.
-/

namespace Deduction

namespace Reader

variable {α β : Type} {m : Reader α} {f : α → Reader β} {P Q : α → Prop} {R : β → Prop}

/-- Every value that the reader yields satisfies `P`. -/
def Yields (m : Reader α) (P : α → Prop) : Prop := ∀ c a c', m c = (.ok a, c') → P a

/-! ## Rules -/

theorem yields_true (m : Reader α) : m.Yields fun _ => True := fun _ _ _ _ => trivial

theorem yields_pure {a : α} (h : P a) : (pure a : Reader α).Yields P := by
  intro c b c' heq
  cases heq
  exact h

theorem yields_fail : (fail : Reader α).Yields P := by
  intro c a c' h
  cases h

theorem Yields.bind (hm : m.Yields Q) (hf : ∀ a, Q a → (f a).Yields R) : (m >>= f).Yields R := by
  intro c b c' h
  rcases hmc : m c with ⟨r, c₁⟩
  cases r with
  | error e =>
    have hb : (m >>= f) c = (.error e, c₁) := by simp only [Bind.bind, hmc]
    rw [hb] at h
    cases h
  | ok a =>
    have hb : (m >>= f) c = f a c₁ := by simp only [Bind.bind, hmc]
    rw [hb] at h
    exact hf a (hm c a c₁ hmc) c₁ b c' h

/-- A reader whose value does not matter for what comes after it. -/
theorem yields_bind_of_forall (hf : ∀ a, (f a).Yields R) : (m >>= f).Yields R :=
  (yields_true m).bind fun a _ => hf a

/-! Blocks and traces change failures only. -/

section Successes

variable {c c' : Cursor} {a : α}

theorem mapTrace_eq_ok {g : List Expectation → List Expectation} :
    m.mapTrace g c = (.ok a, c') ↔ m c = (.ok a, c') := by
  unfold mapTrace
  rcases m c with ⟨_ | _, _⟩ <;> simp

theorem commit_eq_ok : m.commit c = (.ok a, c') ↔ m c = (.ok a, c') := by
  unfold commit
  rcases m c with ⟨_ | _, _⟩ <;> simp

theorem attempt_eq_ok : m.attempt c = (.ok a, c') ↔ m c = (.ok a, c') := by
  unfold attempt
  rcases m c with ⟨_ | _, _⟩ <;> simp

end Successes

theorem Yields.mapTrace (hm : m.Yields P) (g : List Expectation → List Expectation) : (m.mapTrace g).Yields P :=
  fun c a c' h => hm c a c' (mapTrace_eq_ok.mp h)

theorem Yields.expecting (hm : m.Yields P) (what : Expectation) : (m.expecting what).Yields P := hm.mapTrace _

theorem Yields.commit (hm : m.Yields P) : m.commit.Yields P := fun c a c' h => hm c a c' (commit_eq_ok.mp h)

theorem yields_withBudget {g : Nat → Reader α} (hg : ∀ n, (g n).Yields P) : (withBudget g).Yields P :=
  fun c a c' h => hg _ c a c' h

theorem Yields.readAll (hm : m.Yields P) {text : List Char} {a : α} (h : m.readAll text = .ok a) : P a := by
  have hwhole : (do
      let a ← m
      let _ ← skipWhitespace
      expectEnd
      return a : Reader α).Yields P :=
    hm.bind fun a ha => yields_bind_of_forall fun _ => yields_bind_of_forall fun _ => yields_pure ha
  refine hwhole (Cursor.start text) a _ (Prod.ext ?_ rfl)
  exact h

end Reader

open Reader

/-! ## Sentences -/

namespace Sentence

theorem readWithin_yields (budget : Nat) : (readWithin false budget).Yields fun s => s.isGround = true := by
  induction budget with
  | zero => exact yields_fail.expecting _
  | succ budget ih =>
    unfold readWithin
    refine yields_bind_of_forall fun _ => yields_bind_of_forall fun next => ?_
    split
    · -- a negation
      refine yields_bind_of_forall fun _ => ih.commit.bind fun s hs => ?_
      exact yields_pure hs
    · -- a binary connective in parentheses
      refine yields_bind_of_forall fun _ => Yields.commit (ih.bind fun lhs hl => ?_)
      refine yields_bind_of_forall fun _ => yields_bind_of_forall fun op => ih.bind fun rhs hr => ?_
      refine yields_bind_of_forall fun _ => yields_bind_of_forall fun _ => yields_pure ?_
      rw [isGround, hl, hr]
      rfl
    · -- a letter; variables are not read here
      split
      · exact yields_bind_of_forall fun _ => yields_pure rfl
      · rw [Bool.and_false]
        exact yields_fail.expecting _
    · exact yields_fail.expecting _

theorem reader_yields : (reader false).Yields fun s => s.isGround = true :=
  yields_withBudget readWithin_yields

theorem topReader_yields : (topReader false).Yields fun s => s.isGround = true := by
  unfold topReader
  refine reader_yields.bind fun lhs hl => yields_bind_of_forall fun op => ?_
  cases op with
  | none => exact yields_pure hl
  | some op =>
    refine reader_yields.commit.bind fun rhs hr => yields_pure ?_
    rw [isGround, hl, hr]
    rfl

end Sentence

/-! ## Lines -/

namespace Line

theorem readBars_yields : readBars.Yields fun depth => 1 ≤ depth := by
  unfold readBars
  refine yields_bind_of_forall fun bars => ?_
  cases bars with
  | nil => exact yields_fail.expecting _
  | cons bar bars => exact yields_pure (by simp)

theorem readStep_yields (source depth : Nat) : (readStep source depth).Yields fun line =>
    ∃ s, line = .step s ∧ s.source = source ∧ s.depth = depth ∧ s.sentence.isGround = true := by
  unfold readStep
  refine yields_bind_of_forall fun _ => yields_bind_of_forall fun number => yields_bind_of_forall fun _ => ?_
  refine Sentence.topReader_yields.bind fun sentence hs => ?_
  refine yields_bind_of_forall fun _ => yields_bind_of_forall fun reason => yields_pure ?_
  exact ⟨_, rfl, rfl, rfl, hs⟩

theorem reader_yields (source : Nat) : (reader source).Yields fun line =>
    ∀ s, line = .step s → s.source = source ∧ 1 ≤ s.depth ∧ s.sentence.isGround = true := by
  unfold reader
  refine yields_bind_of_forall fun _ => readBars_yields.bind fun depth hd => yields_bind_of_forall fun sep => ?_
  cases sep with
  | some _ => exact yields_pure fun s h => by cases h
  | none =>
    intro c line c' h s hline
    obtain ⟨s', hs', hsource, hdepth, hground⟩ := (readStep_yields source depth).commit.expecting _ c line c' h
    rw [hs'] at hline
    cases hline
    exact ⟨hsource, hdepth ▸ hd, hground⟩

/-- A step that is read from line `source` of a text has a bar in front of it and a ground sentence. -/
theorem step_of_parse {text : String} {source : Nat} {s : Step} (h : parse text source = .ok (.step s)) :
    s.source = source ∧ 1 ≤ s.depth ∧ s.sentence.isGround = true :=
  (reader_yields source).readAll h s rfl

end Line

end Deduction
