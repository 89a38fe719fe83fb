import Deduction.Proof.Check
import Deduction.Proofs.Reading

/-!
# The block structure of proofs

A list of steps is laid out if it starts with premises at depth one and every step of the body below them follows the
step before it: an assumption one level deeper, any other step no deeper and with the name of a rule.  Every proof that
can be read is laid out.

* `Proof.laidOut_of_readProof`: the steps of a proof that is read are laid out, and their sentences are ground.
* `Proof.LaidOut.nested`: of a laid-out list, depths rise at assumptions only, and there by one.
-/

namespace Deduction

/-- The step may follow a step at depth `depth` in a body. -/
def Step.Follows (isRule : String → Bool) (depth : Nat) (s : Step) : Prop :=
  if s.isAssumption then s.depth = depth + 1
  else s.isPremise = false ∧ isRule s.reason.rule = true ∧ 1 ≤ s.depth ∧ s.depth ≤ depth

namespace Proof

/-- The steps of a body that comes after a step at depth `depth`. -/
def BodyLaidOut (isRule : String → Bool) : Nat → List Step → Prop
  | _, [] => True
  | depth, s :: rest => s.Follows isRule depth ∧ BodyLaidOut isRule s.depth rest

/-- Premises at depth one and then a body; the depth before the first step of the body counts as one. -/
def LaidOut (isRule : String → Bool) (steps : List Step) : Prop :=
  ∃ premises body, steps = premises ++ body ∧ (∀ s ∈ premises, s.isPremise = true ∧ s.depth = 1) ∧
    BodyLaidOut isRule 1 body

/-- The depth of the last step, or `depth` if there is none. -/
def lastDepth (depth : Nat) (steps : List Step) : Nat := (steps.getLast?.map Step.depth).getD depth

/-- After a step at depth `depth`, every assumption is one level deeper than the step before it, and no other step is
deeper than the step before it. -/
def Nested : Nat → List Step → Prop
  | _, [] => True
  | depth, s :: rest =>
    (if s.isAssumption then s.depth = depth + 1 else 1 ≤ s.depth ∧ s.depth ≤ depth) ∧ Nested s.depth rest

/-! ## Adding a step at the end -/

section Concat

variable {isRule : String → Bool} {steps : List Step} {x : Step}

theorem lastDepth_nil (depth : Nat) : lastDepth depth [] = depth := rfl

theorem lastDepth_concat (depth : Nat) (steps : List Step) (x : Step) : lastDepth depth (steps ++ [x]) = x.depth := by
  simp [lastDepth]

theorem lastDepth_cons (depth : Nat) (s : Step) (steps : List Step) :
    lastDepth depth (s :: steps) = lastDepth s.depth steps := by
  cases steps with
  | nil => rfl
  | cons t rest => simp [lastDepth, List.getLast?_cons]

theorem bodyLaidOut_concat {depth : Nat} :
    BodyLaidOut isRule depth (steps ++ [x]) ↔
      BodyLaidOut isRule depth steps ∧ x.Follows isRule (lastDepth depth steps) := by
  induction steps generalizing depth with
  | nil => simp [BodyLaidOut, lastDepth_nil]
  | cons s rest ih => rw [List.cons_append, BodyLaidOut, BodyLaidOut, ih, lastDepth_cons, and_assoc]

/-- A step that may follow the last one extends the layout. -/
theorem LaidOut.concat (h : LaidOut isRule steps) (hx : x.Follows isRule (lastDepth 1 steps)) :
    LaidOut isRule (steps ++ [x]) := by
  obtain ⟨premises, body, rfl, hp, hb⟩ := h
  refine ⟨premises, body ++ [x], by simp, hp, bodyLaidOut_concat.mpr ⟨hb, ?_⟩⟩
  -- the premises are at depth one, which is what counts where the body is empty
  have hlast : lastDepth 1 (premises ++ body) = lastDepth 1 body := by
    cases hbody : body.getLast? with
    | some s => simp [lastDepth, List.getLast?_append, hbody]
    | none =>
      cases hprem : premises.getLast? with
      | none => simp [lastDepth, List.getLast?_append, hbody, hprem]
      | some s =>
        have := (hp s (List.mem_of_getLast? hprem)).2
        simp [lastDepth, List.getLast?_append, hbody, hprem, this]
  rwa [hlast] at hx

end Concat

/-! ## Nesting -/

section Nesting

variable {isRule : String → Bool}

theorem BodyLaidOut.nested {depth : Nat} {steps : List Step} (h : BodyLaidOut isRule depth steps) :
    Nested depth steps := by
  induction steps generalizing depth with
  | nil => trivial
  | cons s rest ih =>
    obtain ⟨hs, hrest⟩ := h
    refine ⟨?_, ih hrest⟩
    unfold Step.Follows at hs
    by_cases ha : s.isAssumption = true
    · rw [if_pos ha] at hs ⊢
      exact hs
    · rw [if_neg ha] at hs ⊢
      exact hs.2.2

theorem premise_not_assumption {s : Step} (h : s.isPremise = true) : s.isAssumption = false := by
  have hname : s.reason.rule = premiseName := by simpa [Step.isPremise, Justification.isPremise] using h
  simp [Step.isAssumption, Justification.isAssumption, hname, premiseName, assumptionName]

theorem LaidOut.nested {steps : List Step} (h : LaidOut isRule steps) : Nested 1 steps := by
  obtain ⟨premises, body, rfl, hp, hb⟩ := h
  induction premises with
  | nil => exact hb.nested
  | cons s rest ih =>
    obtain ⟨hs, hd⟩ := hp s (by simp)
    refine ⟨?_, ?_⟩
    · rw [if_neg (by simp [premise_not_assumption hs])]
      omega
    · rw [hd]
      exact ih fun t ht => hp t (by simp [ht])

end Nesting

/-! ## Proofs that are read -/

section Reading

theorem bind_eq_ok_iff {ε α β : Type} {x : Except ε α} {f : α → Except ε β} {b : β} :
    (x >>= f) = .ok b ↔ ∃ a, x = .ok a ∧ f a = .ok b := by
  cases x with
  | error e => simp [bind, Except.bind]
  | ok a => simp [bind, Except.bind]

theorem lineAt_eq_ok {source : Nat} {text : String} {line : Line} (h : lineAt source text = .ok line) :
    Line.parse text source = .ok line := by
  unfold lineAt at h
  cases hp : Line.parse text source with
  | error e => rw [hp] at h; cases h
  | ok l => rw [hp] at h; cases h; rfl

/-- What it takes for the premises to be read from a first line on. -/
theorem readPremises_cons {source : Nat} {text : String} {rest : List String} {premises : List Step}
    {next : Nat × List String} (h : readPremises source (text :: rest) = .ok (premises, next)) :
    (∃ d, lineAt source text = .ok (.separator d) ∧ premises = [] ∧ next = (source + 1, rest)) ∨
    ∃ s more, lineAt source text = .ok (.step s) ∧ s.isPremise = true ∧ s.depth = 1 ∧ premises = s :: more ∧
      readPremises (source + 1) rest = .ok (more, next) := by
  rw [readPremises, bind_eq_ok_iff] at h
  obtain ⟨line, hl, h⟩ := h
  cases line with
  | separator d =>
    simp only [pure, Except.pure, Except.ok.injEq, Prod.mk.injEq] at h
    exact Or.inl ⟨d, hl, h.1.symm, h.2.symm⟩
  | step s =>
    right
    by_cases hp : s.isPremise = true
    · by_cases hd : s.depth = 1
      · simp only [hp, hd, if_true, bind_eq_ok_iff] at h
        obtain ⟨⟨more, next'⟩, hr, h⟩ := h
        simp only [pure, Except.pure, Except.ok.injEq, Prod.mk.injEq] at h
        obtain ⟨rfl, rfl⟩ := h
        exact ⟨s, more, hl, hp, hd, rfl, hr⟩
      · simp [hp, hd, throw, throwThe, MonadExceptOf.throw] at h
    · simp only [hp, Bool.false_eq_true, if_false] at h
      split at h <;> cases h

theorem readPremises_ok {source : Nat} {texts : List String} {premises : List Step} {next : Nat × List String}
    (h : readPremises source texts = .ok (premises, next)) :
    ∀ s ∈ premises, s.isPremise = true ∧ s.depth = 1 ∧ s.sentence.isGround = true := by
  induction texts generalizing source premises with
  | nil => cases h
  | cons text rest ih =>
    rcases readPremises_cons h with ⟨d, -, rfl, -⟩ | ⟨s, more, hl, hp, hd, rfl, hr⟩
    · intro s hs
      cases hs
    · intro t ht
      rcases List.mem_cons.mp ht with rfl | ht
      · exact ⟨hp, hd, (Line.step_of_parse (lineAt_eq_ok hl)).2.2⟩
      · exact ih hr t ht

/-- What it takes for a body to be read from a first line on: a step that may follow, and below an assumption its
separator. -/
theorem readBody_cons {isRule : String → Bool} {source depth : Nat} {text : String} {rest : List String}
    {steps : List Step} (h : readBody isRule source depth (text :: rest) = .ok steps) :
    ∃ s more, lineAt source text = .ok (.step s) ∧ s.Follows isRule depth ∧ steps = s :: more ∧
      if s.isAssumption then ∃ below rest' d, rest = below :: rest' ∧ lineAt (source + 1) below = .ok (.separator d) ∧
        readBody isRule (source + 2) s.depth rest' = .ok more
      else readBody isRule (source + 1) s.depth rest = .ok more := by
  rw [readBody.eq_def] at h
  simp only [bind_eq_ok_iff] at h
  obtain ⟨line, hl, h⟩ := h
  cases line with
  | separator d => cases h
  | step s =>
    have hdepth := (Line.step_of_parse (lineAt_eq_ok hl)).2.1
    simp only at h
    by_cases hlt : depth < s.depth
    · rw [if_pos hlt] at h
      by_cases ha : s.isAssumption = true
      · by_cases hd : s.depth = depth + 1
        · rw [if_neg (by simp [ha]), if_neg (by simp [hd])] at h
          cases rest with
          | nil => cases h
          | cons below rest' =>
            simp only [bind_eq_ok_iff] at h
            obtain ⟨line', hl', h⟩ := h
            cases line' with
            | step s' => cases h
            | separator d =>
              simp only [bind_eq_ok_iff, pure, Except.pure, Except.ok.injEq] at h
              obtain ⟨more, hr, rfl⟩ := h
              refine ⟨s, more, hl, by rw [Step.Follows, if_pos ha]; exact hd, rfl, ?_⟩
              rw [if_pos ha]
              exact ⟨below, rest', d, rfl, hl', hr⟩
        · rw [if_neg (by simp [ha]), if_pos hd] at h
          cases h
      · rw [if_pos (by simpa using ha)] at h
        cases h
    · rw [if_neg hlt] at h
      by_cases hbad : (s.isPremise || s.isAssumption || !isRule s.reason.rule) = true
      · rw [if_pos hbad] at h
        cases h
      · rw [if_neg hbad] at h
        simp only [bind_eq_ok_iff, pure, Except.pure, Except.ok.injEq] at h
        obtain ⟨more, hr, rfl⟩ := h
        simp only [Bool.or_eq_true, Bool.not_eq_true', not_or, Bool.not_eq_true, Bool.not_eq_false] at hbad
        obtain ⟨⟨hp, ha⟩, hrule⟩ := hbad
        have hna : ¬ s.isAssumption = true := by simp [ha]
        refine ⟨s, more, hl, ?_, rfl, ?_⟩
        · rw [Step.Follows, if_neg hna]
          exact ⟨hp, hrule, hdepth, by omega⟩
        · rw [if_neg hna]
          exact hr

theorem readBody_ok {isRule : String → Bool} (n : Nat) : ∀ {texts : List String}, texts.length ≤ n →
    ∀ {source depth : Nat} {steps : List Step}, readBody isRule source depth texts = .ok steps →
      BodyLaidOut isRule depth steps ∧ ∀ s ∈ steps, s.sentence.isGround = true := by
  induction n with
  | zero =>
    intro texts hn source depth steps h
    rw [List.length_eq_zero_iff.mp (Nat.le_zero.mp hn)] at h
    cases h
    exact ⟨trivial, fun _ hs => by cases hs⟩
  | succ n ih =>
    intro texts hn source depth steps h
    cases texts with
    | nil =>
      cases h
      exact ⟨trivial, fun _ hs => by cases hs⟩
    | cons text rest =>
      rw [List.length_cons] at hn
      obtain ⟨s, more, hl, hf, rfl, hrest⟩ := readBody_cons h
      -- below an assumption one more line, its separator, has been read
      have hmore : BodyLaidOut isRule s.depth more ∧ ∀ t ∈ more, t.sentence.isGround = true := by
        split at hrest
        · obtain ⟨below, rest', d, rfl, -, hr⟩ := hrest
          rw [List.length_cons] at hn
          exact ih (by omega) hr
        · exact ih (by omega) hrest
      refine ⟨⟨hf, hmore.1⟩, fun t ht => ?_⟩
      rcases List.mem_cons.mp ht with rfl | ht
      · exact (Line.step_of_parse (lineAt_eq_ok hl)).2.2
      · exact hmore.2 t ht

/-- **Every proof that is read is laid out**, and its sentences are ground. -/
theorem laidOut_of_readProof {library : Library} {lines : List String} {p : Proof}
    (h : readProof library lines = .ok p) :
    LaidOut library.contains p.steps ∧ ∀ s ∈ p.steps, s.sentence.isGround = true := by
  unfold readProof at h
  cases hp : Proof.parse library.contains lines with
  | error e => simp [hp, Except.mapError] at h
  | ok q =>
    have hq : q = p := by simpa [hp, Except.mapError] using h
    subst hq
    unfold Proof.parse at hp
    simp only [bind_eq_ok_iff, pure, Except.pure, Except.ok.injEq] at hp
    obtain ⟨⟨premises, source, rest⟩, hprem, body, hbody, rfl⟩ := hp
    have h1 := readPremises_ok hprem
    have h2 := readBody_ok rest.length (Nat.le_refl _) hbody
    refine ⟨⟨premises, body, rfl, fun s hs => ⟨(h1 s hs).1, (h1 s hs).2.1⟩, h2.1⟩, fun s hs => ?_⟩
    rcases List.mem_append.mp hs with hs | hs
    · exact (h1 s hs).2.2
    · exact h2.2 s hs

end Reading

end Proof

end Deduction
