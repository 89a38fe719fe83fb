import Mathlib.Tactic.Common
import Deduction.Proof.Check
import Deduction.Proofs.Scoping

/-!
# The passes of the check

`Proof.Accepted` collects what the passes of the check ask of a list of steps.  Scope and premises of a step depend on
the steps before it only, so a list of accepted steps can grow at its end, step by step.

* `Proof.fault?_eq_none_iff`, `verify_eq_ok_iff`: a proof is accepted exactly if no pass finds a fault.
* `Proof.Accepted.concat`: adding a step that is in order.
-/

namespace Deduction

/-- The citation runs forward, and all that it refers to comes before position `here`. -/
def Citation.Precedes (here : Nat) : Citation → Prop
  | .line number => number < here
  | .range first last => first ≤ last ∧ last < here

theorem precedes_of_citable {steps : List Step} {here : Nat} {c : Citation} (hc : citable steps here c = true) :
    c.Precedes here := by
  cases c with
  | line number => exact lt_of_lineCitable hc
  | range first last => exact lt_of_rangeCitable hc

namespace Proof

/-- Every step is numbered by its position, cites what is in scope, is an allowed premise if it is a premise, and is
justified by its rule if it is neither premise nor assumption. -/
structure Accepted (library : Library) (allowed : Option (List Sentence)) (steps : List Step) : Prop where
  numbered : ∀ (i : Nat) (s : Step), steps[i]? = some s → s.number = i
  inScope : ∀ (i : Nat) (s : Step), steps[i]? = some s → ∀ c ∈ s.reason.citations, citable steps i c = true
  allowed : ∀ sentences ∈ allowed, ∀ s ∈ steps, s.isPremise = true → s.sentence ∈ sentences
  justified : ∀ s ∈ steps, s.isPremise = false → s.isAssumption = false →
    ∃ σ, library.apply s.reason.rule (citedPremises steps s) s.sentence = .ok σ

/-! ## One pass after the other -/

section Faults

variable {steps : List Step}

theorem findSome?_zipIdx_eq_none_iff {β : Type} {f : Step × Nat → Option β} :
    steps.zipIdx.findSome? f = none ↔ ∀ i s, steps[i]? = some s → f (s, i) = none := by
  rw [List.findSome?_eq_none_iff]
  constructor
  · exact fun h i s hs => h (s, i) (List.mem_zipIdx_iff_getElem?.mpr hs)
  · exact fun h x hx => h x.2 x.1 (List.mem_zipIdx_iff_getElem?.mp hx)

theorem numberingFault?_eq_none_iff :
    numberingFault? steps = none ↔ ∀ (i : Nat) (s : Step), steps[i]? = some s → s.number = i := by
  unfold numberingFault?
  rw [findSome?_zipIdx_eq_none_iff]
  refine forall_congr' fun i => forall_congr' fun s => forall_congr' fun _ => ?_
  by_cases h : s.number = i <;> simp [h]

theorem scopeFault?_eq_none_iff : scopeFault? steps = none ↔
    ∀ (i : Nat) (s : Step), steps[i]? = some s → ∀ c ∈ s.reason.citations, citable steps i c = true := by
  unfold scopeFault?
  rw [findSome?_zipIdx_eq_none_iff]
  refine forall_congr' fun i => forall_congr' fun s => forall_congr' fun _ => ?_
  simp only [List.findSome?_eq_none_iff]
  refine forall_congr' fun c => forall_congr' fun _ => ?_
  by_cases h : citable steps i c = true <;> simp [h]

theorem premiseFault?_eq_none_iff {sentences : List Sentence} : premiseFault? steps sentences = none ↔
    ∀ s ∈ steps, s.isPremise = true → s.sentence ∈ sentences := by
  unfold premiseFault?
  rw [List.findSome?_eq_none_iff]
  refine forall_congr' fun s => forall_congr' fun _ => ?_
  by_cases hp : s.isPremise = true <;> by_cases hm : s.sentence ∈ sentences <;> simp [hp, hm]

theorem applicationFault?_eq_none_iff {library : Library} : applicationFault? steps library = none ↔
    ∀ s ∈ steps, s.isPremise = false → s.isAssumption = false →
      ∃ σ, library.apply s.reason.rule (citedPremises steps s) s.sentence = .ok σ := by
  unfold applicationFault?
  rw [List.findSome?_eq_none_iff]
  refine forall_congr' fun s => forall_congr' fun _ => ?_
  by_cases hp : s.isPremise = true
  · simp [hp]
  · by_cases ha : s.isAssumption = true
    · simp [ha]
    · cases happ : library.apply s.reason.rule (citedPremises steps s) s.sentence <;> simp [hp, ha]

theorem conclusionFault?_eq_none_iff {conclusion : Sentence} :
    conclusionFault? steps conclusion = none ↔ ∃ s ∈ steps, s.sentence = conclusion := by
  unfold conclusionFault?
  by_cases h : (steps.any fun s => s.sentence == conclusion) = true
  · rw [if_pos h]
    simpa using h
  · rw [if_neg h]
    have hno : ¬ ∃ s ∈ steps, s.sentence = conclusion := by simpa using h
    cases steps.getLast? <;> simpa using hno

/-- **A list of steps has no fault exactly if it is accepted and states the expected conclusion.** -/
theorem fault?_eq_none_iff {library : Library} {task : Task} : fault? library task steps = none ↔
    Accepted library task.allowedPremises steps ∧
      ∀ conclusion ∈ task.expectedConclusion, ∃ s ∈ steps, s.sentence = conclusion := by
  have hallowed : task.allowedPremises.bind (premiseFault? steps) = none ↔
      ∀ sentences ∈ task.allowedPremises, ∀ s ∈ steps, s.isPremise = true → s.sentence ∈ sentences := by
    cases task.allowedPremises <;> simp [premiseFault?_eq_none_iff]
  have hconclusion : task.expectedConclusion.bind (conclusionFault? steps) = none ↔
      ∀ conclusion ∈ task.expectedConclusion, ∃ s ∈ steps, s.sentence = conclusion := by
    cases task.expectedConclusion <;> simp [conclusionFault?_eq_none_iff]
  simp only [fault?, Option.orElse_eq_orElse, Option.orElse_eq_or, Option.or_eq_none_iff,
    numberingFault?_eq_none_iff, scopeFault?_eq_none_iff, hallowed, applicationFault?_eq_none_iff, hconclusion]
  constructor
  · rintro ⟨h1, h2, h3, h4, h5⟩
    exact ⟨⟨h1, h2, h3, h4⟩, h5⟩
  · rintro ⟨⟨h1, h2, h3, h4⟩, h5⟩
    exact ⟨h1, h2, h3, h4, h5⟩

theorem check_eq_ok_iff {library : Library} {task : Task} {p : Proof} :
    p.check library task = .ok () ↔ fault? library task p.steps = none := by
  unfold check
  cases fault? library task p.steps <;> simp

end Faults

/-! ## Growing a list of steps -/

section Growth

variable {steps more : List Step} {here : Nat}

theorem stretch_append {first last : Nat} (h : last < steps.length) :
    stretch (steps ++ more) first last = stretch steps first last := by
  unfold stretch
  rw [List.take_append_of_le_length (by omega)]

/-- What a step may cite does not depend on the steps after it. -/
theorem citable_append (hhere : here < steps.length) (c : Citation) :
    citable (steps ++ more) here c = citable steps here c := by
  cases c with
  | line line =>
    by_cases hlt : line < here
    · simp only [citable, lineCitable, List.getElem?_append_left (show line < steps.length by omega),
        stretch_append hhere]
    · have hno : ∀ steps', citable steps' here (.line line) = false := fun steps' => by
        rw [← Bool.not_eq_true]
        exact fun h => hlt (lt_of_lineCitable h)
      rw [hno, hno]
  | range first last =>
    by_cases hlt : first ≤ last ∧ last < here
    · simp only [citable, rangeCitable, List.getElem?_append_left (show first < steps.length by omega),
        List.getElem?_append_left hhere, stretch_append hhere, stretch_append (show last < steps.length by omega)]
    · have hno : ∀ steps', citable steps' here (.range first last) = false := fun steps' => by
        rw [← Bool.not_eq_true]
        exact fun h => hlt (lt_of_rangeCitable h)
      rw [hno, hno]

/-- What a citation of earlier steps contributes does not depend on later ones. -/
theorem premise?_append (hhere : here < steps.length) {c : Citation} (hc : c.Precedes here) :
    premise? (steps ++ more) c = premise? steps c := by
  cases c with
  | line line =>
    have hlt : line < here := hc
    simp only [premise?, List.getElem?_append_left (show line < steps.length by omega)]
  | range first last =>
    obtain ⟨hfl, hlh⟩ := hc
    have hlast : last < steps.length := by omega
    simp only [premise?, List.getElem?_append_left (show first < steps.length by omega), stretch_append hlast, hfl,
      hlast, show last < (steps ++ more).length by rw [List.length_append]; omega]

theorem citedPremises_append (hhere : here < steps.length) {s : Step}
    (hs : ∀ c ∈ s.reason.citations, c.Precedes here) :
    citedPremises (steps ++ more) s = citedPremises steps s :=
  List.filterMap_congr fun c hc => premise?_append hhere (hs c hc)

/-- The steps of a longer list are those from before and the new one. -/
theorem getElem?_concat {x s : Step} {i : Nat} (hs : (steps ++ [x])[i]? = some s) :
    (i < steps.length ∧ steps[i]? = some s) ∨ (i = steps.length ∧ s = x) := by
  rcases Nat.lt_or_ge i steps.length with hlt | hge
  · rw [List.getElem?_append_left hlt] at hs
    exact Or.inl ⟨hlt, hs⟩
  · rw [List.getElem?_append_right hge, List.getElem?_singleton] at hs
    split at hs
    next hz =>
      cases hs
      exact Or.inr ⟨by omega, rfl⟩
    next => cases hs

/-- **A step that is in order can be added at the end.** -/
theorem Accepted.concat {library : Library} {allowed : Option (List Sentence)} {x : Step}
    (h : Accepted library allowed steps) (hnum : x.number = steps.length)
    (hscope : ∀ c ∈ x.reason.citations, citable (steps ++ [x]) steps.length c = true)
    (hallowed : ∀ sentences ∈ allowed, x.isPremise = true → x.sentence ∈ sentences)
    (hjust : x.isPremise = false → x.isAssumption = false →
      ∃ σ, library.apply x.reason.rule (citedPremises (steps ++ [x]) x) x.sentence = .ok σ) :
    Accepted library allowed (steps ++ [x]) := by
  refine ⟨fun i s hs => ?_, fun i s hs c hc => ?_, fun sentences hsen s hs hp => ?_, fun s hs hp ha => ?_⟩
  · rcases getElem?_concat hs with ⟨-, hs⟩ | ⟨rfl, rfl⟩
    · exact h.numbered i s hs
    · exact hnum
  · rcases getElem?_concat hs with ⟨hlt, hs⟩ | ⟨rfl, rfl⟩
    · rw [citable_append hlt]
      exact h.inScope i s hs c hc
    · exact hscope c hc
  · rcases List.mem_append.mp hs with hs | hs
    · exact h.allowed sentences hsen s hs hp
    · rw [List.mem_singleton.mp hs] at hp ⊢
      exact hallowed sentences hsen hp
  · rcases List.mem_append.mp hs with hs | hs
    · obtain ⟨i, hi⟩ := List.mem_iff_getElem?.mp hs
      have hpast : ∀ c ∈ s.reason.citations, c.Precedes i := fun c hc => precedes_of_citable (h.inScope i s hi c hc)
      rw [citedPremises_append (List.getElem?_eq_some_iff.mp hi).1 hpast]
      exact h.justified s hs hp ha
    · rw [List.mem_singleton.mp hs] at hp ha ⊢
      exact hjust hp ha

end Growth

end Proof

/-- **A proof text is valid exactly if it can be read and no pass finds a fault.** -/
theorem verify_eq_ok_iff {library : Library} {task : Task} {lines : List String} {p : Proof} :
    verify library task lines = .ok p ↔
      readProof library lines = .ok p ∧ Proof.fault? library task p.steps = none := by
  unfold verify
  rw [Proof.bind_eq_ok_iff]
  constructor
  · rintro ⟨q, hread, h⟩
    rw [Proof.bind_eq_ok_iff] at h
    obtain ⟨u, hcheck, hp⟩ := h
    cases hp
    refine ⟨hread, ?_⟩
    cases hf : Proof.fault? library task p.steps with
    | none => rfl
    | some e => simp [Proof.check, hf, Except.mapError] at hcheck
  · rintro ⟨hread, hf⟩
    refine ⟨p, hread, ?_⟩
    rw [Proof.check_eq_ok_iff.mpr hf]
    rfl

end Deduction
