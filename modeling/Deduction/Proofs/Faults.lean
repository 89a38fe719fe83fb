import Deduction.Proofs.Passes

/-!
# What the check reports

A fault is found by one pass at one step, after the passes before it have found nothing.  `Proof.Found` lists what can
be found, so that statements about reported faults need not look at the passes again.

* `Proof.fault?_eq_some`: every fault of a list of steps is one of these.
* `Proof.Found.place`: a fault is at a step, unless there are none.
-/

namespace Deduction

namespace Proof

/-- The faults of a list of steps: what is wrong with the step at position `i`, and what the earlier passes have
established; or that there is no step to state the conclusion. -/
inductive Found (library : Library) (task : Task) (steps : List Step) : Located CheckError → Prop
  | numbering {i : Nat} {s : Step} (hs : steps[i]? = some s) (h : s.number ≠ i) :
      Found library task steps (faultAt s (.invalidNumbering i))
  | scope {i : Nat} {s : Step} {c : Citation} (hnum : ∀ (j : Nat) (t : Step), steps[j]? = some t → t.number = j)
      (hs : steps[i]? = some s) (hc : c ∈ s.reason.citations) (h : citable steps i c = false) :
      Found library task steps (faultAt s (.inaccessible c))
  | premise {i : Nat} {s : Step} {sentences : List Sentence} (hallowed : sentences ∈ task.allowedPremises)
      (hs : steps[i]? = some s) (hp : s.isPremise = true) (h : s.sentence ∉ sentences) :
      Found library task steps (faultAt s (.invalidPremise s.sentence))
  | application {i : Nat} {s : Step} {error : MatchError}
      (hnum : ∀ (j : Nat) (t : Step), steps[j]? = some t → t.number = j)
      (hscope : ∀ (j : Nat) (t : Step), steps[j]? = some t → ∀ c ∈ t.reason.citations, citable steps j c = true)
      (hs : steps[i]? = some s) (hp : s.isPremise = false) (ha : s.isAssumption = false)
      (h : library.apply s.reason.rule (citedPremises steps s) s.sentence = .error error) :
      Found library task steps (faultAt s (.invalidApplication s.reason.rule error))
  | conclusion {i : Nat} {s : Step} {sentence : Sentence} (hc : sentence ∈ task.expectedConclusion)
      (hs : steps[i]? = some s) : Found library task steps (faultAt s (.missingConclusion sentence))
  | empty {sentence : Sentence} (hc : sentence ∈ task.expectedConclusion) (hsteps : steps = []) :
      Found library task steps ⟨.missingConclusion sentence, 0, none⟩

/-! ## One pass after the other -/

section Passes

variable {steps : List Step} {e : Located CheckError}

theorem numberingFault?_eq_some (h : numberingFault? steps = some e) :
    ∃ i s, steps[i]? = some s ∧ s.number ≠ i ∧ e = faultAt s (.invalidNumbering i) := by
  obtain ⟨x, hx, h⟩ := List.exists_of_findSome?_eq_some h
  refine ⟨x.2, x.1, List.mem_zipIdx_iff_getElem?.mp hx, ?_⟩
  by_cases hn : x.1.number = x.2
  · simp [hn] at h
  · exact ⟨hn, by simpa [hn] using h.symm⟩

theorem scopeFault?_eq_some (h : scopeFault? steps = some e) : ∃ i s c, steps[i]? = some s ∧
    c ∈ s.reason.citations ∧ citable steps i c = false ∧ e = faultAt s (.inaccessible c) := by
  obtain ⟨x, hx, h⟩ := List.exists_of_findSome?_eq_some h
  obtain ⟨c, hc, h⟩ := List.exists_of_findSome?_eq_some h
  refine ⟨x.2, x.1, c, List.mem_zipIdx_iff_getElem?.mp hx, hc, ?_⟩
  by_cases hs : citable steps x.2 c = true
  · simp [hs] at h
  · exact ⟨by simpa using hs, by simpa [hs] using h.symm⟩

theorem premiseFault?_eq_some {sentences : List Sentence} (h : premiseFault? steps sentences = some e) :
    ∃ s ∈ steps, s.isPremise = true ∧ s.sentence ∉ sentences ∧ e = faultAt s (.invalidPremise s.sentence) := by
  obtain ⟨s, hs, h⟩ := List.exists_of_findSome?_eq_some h
  refine ⟨s, hs, ?_⟩
  split at h
  next hbad =>
    have hbad : s.isPremise = true ∧ s.sentence ∉ sentences := by simpa using hbad
    exact ⟨hbad.1, hbad.2, by simpa using h.symm⟩
  next => cases h

theorem applicationFault?_eq_some {library : Library} (h : applicationFault? steps library = some e) :
    ∃ s ∈ steps, s.isPremise = false ∧ s.isAssumption = false ∧ ∃ error,
      library.apply s.reason.rule (citedPremises steps s) s.sentence = .error error ∧
        e = faultAt s (.invalidApplication s.reason.rule error) := by
  obtain ⟨s, hs, h⟩ := List.exists_of_findSome?_eq_some h
  split at h
  next => cases h
  next hrule =>
    have hrule : s.isPremise = false ∧ s.isAssumption = false := by simpa using hrule
    refine ⟨s, hs, hrule.1, hrule.2, ?_⟩
    split at h
    next => cases h
    next error happ => exact ⟨error, happ, by simpa using h.symm⟩

theorem conclusionFault?_eq_some {sentence : Sentence} (h : conclusionFault? steps sentence = some e) :
    (∃ s ∈ steps, e = faultAt s (.missingConclusion sentence)) ∨
      (steps = [] ∧ e = ⟨.missingConclusion sentence, 0, none⟩) := by
  unfold conclusionFault? at h
  split at h
  next => cases h
  next =>
    split at h
    next s hlast => exact Or.inl ⟨s, List.mem_of_getLast? hlast, by simpa using h.symm⟩
    next hlast => exact Or.inr ⟨List.getLast?_eq_none_iff.mp hlast, by simpa using h.symm⟩

/-- **What the check reports has been found by one of its passes.** -/
theorem fault?_eq_some {library : Library} {task : Task} (h : fault? library task steps = some e) :
    Found library task steps e := by
  simp only [fault?, Option.orElse_eq_orElse, Option.orElse_eq_or, Option.or_eq_some_iff, Option.bind_eq_some_iff,
    numberingFault?_eq_none_iff, scopeFault?_eq_none_iff] at h
  rcases h with h | ⟨hnum, h | ⟨hscope, ⟨sentences, hallowed, h⟩ | ⟨-, h | ⟨-, sentence, hc, h⟩⟩⟩⟩
  · obtain ⟨i, s, hs, hn, rfl⟩ := numberingFault?_eq_some h
    exact .numbering hs hn
  · obtain ⟨i, s, c, hs, hc, hno, rfl⟩ := scopeFault?_eq_some h
    exact .scope hnum hs hc hno
  · obtain ⟨s, hs, hp, hno, rfl⟩ := premiseFault?_eq_some h
    obtain ⟨i, hi⟩ := List.mem_iff_getElem?.mp hs
    exact .premise hallowed hi hp hno
  · obtain ⟨s, hs, hp, ha, error, happ, rfl⟩ := applicationFault?_eq_some h
    obtain ⟨i, hi⟩ := List.mem_iff_getElem?.mp hs
    exact .application hnum hscope hi hp ha happ
  · rcases conclusionFault?_eq_some h with ⟨s, hs, rfl⟩ | ⟨hsteps, rfl⟩
    · obtain ⟨i, hi⟩ := List.mem_iff_getElem?.mp hs
      exact .conclusion hc hi
    · exact .empty hc hsteps

/-- A fault is at a step, unless there are none. -/
theorem Found.place {library : Library} {task : Task} (h : Found library task steps e) :
    (∃ s ∈ steps, ∃ cause, e = faultAt s cause) ∨
      (steps = [] ∧ ∃ sentence, e = ⟨.missingConclusion sentence, 0, none⟩) := by
  cases h with
  | numbering hs _ => exact Or.inl ⟨_, List.mem_of_getElem? hs, _, rfl⟩
  | scope _ hs _ _ => exact Or.inl ⟨_, List.mem_of_getElem? hs, _, rfl⟩
  | premise _ hs _ _ => exact Or.inl ⟨_, List.mem_of_getElem? hs, _, rfl⟩
  | application _ _ hs _ _ _ => exact Or.inl ⟨_, List.mem_of_getElem? hs, _, rfl⟩
  | conclusion _ hs => exact Or.inl ⟨_, List.mem_of_getElem? hs, _, rfl⟩
  | empty _ hsteps => exact Or.inr ⟨hsteps, _, rfl⟩

theorem check_eq_error {library : Library} {task : Task} {p : Proof} (h : p.check library task = .error e) :
    Found library task p.steps e := by
  unfold check at h
  split at h
  next e' hf =>
    cases h
    exact fault?_eq_some hf
  next => cases h

end Passes

end Proof

end Deduction
