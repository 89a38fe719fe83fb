import Mathlib.Data.List.Induction
import Deduction.Interpretation

/-!
# Truth under assignments

`Sentence.truth v w` is the value of a sentence under an assignment `v` of all letters and an assignment `w` of all
schema variables.  It always exists, and on ground sentences it agrees with `Sentence.evaluate`.

* `exists_mem_interpretations`: the enumerated interpretations realise every assignment of the listed letters.
* `entails_eq_true_iff`: `entails` decides consequence under all assignments.
* `isTautology_eq_true_iff`: `Sentence.isTautology` decides truth under all assignments.
-/

namespace Deduction

/-! ## Letters -/

section Letters

theorem mem_insertLetter {c x : Char} {l : List Char} : c ∈ insertLetter x l ↔ c = x ∨ c ∈ l := by
  induction l with
  | nil => simp [insertLetter]
  | cons y l ih =>
    unfold insertLetter
    split
    · simp
    · split
      next h => subst h; simp
      next => simp only [List.mem_cons, ih]; tauto

theorem mem_sortLetters {c : Char} {l : List Char} : c ∈ sortLetters l ↔ c ∈ l := by
  induction l with
  | nil => simp [sortLetters]
  | cons x l ih =>
    rw [List.mem_cons, ← ih]
    exact mem_insertLetter

theorem Sentence.mem_letters {c : Char} {s : Sentence} : c ∈ s.letters ↔ c ∈ s.occurrences := mem_sortLetters

end Letters

/-! ## Assignments -/

/-- The value of a sentence when `v` gives the values of all letters and `w` those of all schema variables. -/
def Sentence.truth (v w : Char → Bool) : Sentence → Bool
  | .atom letter => v letter
  | .var name => w name
  | .not operand => !operand.truth v w
  | .binary op lhs rhs => op.apply (lhs.truth v w) (rhs.truth v w)

/-- The assignment that an interpretation describes.  Letters without a value are false. -/
def Interpretation.assignment (i : Interpretation) (c : Char) : Bool := (i.get? c).getD false

/-- The interpretation gives a value to every letter of the sentence. -/
def Interpretation.Interprets (i : Interpretation) (s : Sentence) : Prop := ∀ c ∈ s.letters, (i.get? c).isSome

section Assignments

variable {v v' : Char → Bool} {i : Interpretation} {s : Sentence}

/-- The truth value of a sentence depends on the letters that occur in it only. -/
theorem Sentence.truth_congr {w : Char → Bool} (h : ∀ c ∈ s.occurrences, v c = v' c) : s.truth v w = s.truth v' w := by
  induction s with
  | atom letter => exact h letter (by simp [Sentence.occurrences])
  | var name => rfl
  | not operand ih => simp only [Sentence.truth, ih h]
  | binary op lhs rhs ihl ihr =>
    have hl := ihl fun c hc => h c (List.mem_append_left _ hc)
    have hr := ihr fun c hc => h c (List.mem_append_right _ hc)
    simp only [Sentence.truth, hl, hr]

/-- A truth value that evaluation yields is the one under the assignment of the interpretation. -/
theorem Sentence.truth_of_evaluate (w : Char → Bool) {b : Bool} (h : s.evaluate i = .ok b) :
    s.truth i.assignment w = b := by
  induction s generalizing b with
  | atom letter =>
    unfold Sentence.evaluate at h
    cases hl : i.get? letter with
    | none => rw [hl] at h; cases h
    | some a =>
      rw [hl] at h
      cases h
      simp [Sentence.truth, Interpretation.assignment, hl]
  | var name => cases h
  | not operand ih =>
    cases ho : operand.evaluate i with
    | error e => simp [Sentence.evaluate, ho, bind, Except.bind] at h
    | ok a =>
      simp only [Sentence.evaluate, ho, bind, Except.bind, pure, Except.pure, Except.ok.injEq] at h
      rw [Sentence.truth, ih ho, h]
  | binary op lhs rhs ihl ihr =>
    cases hl : lhs.evaluate i with
    | error e => simp [Sentence.evaluate, hl, bind, Except.bind] at h
    | ok a =>
      cases hr : rhs.evaluate i with
      | error e => simp [Sentence.evaluate, hl, hr, bind, Except.bind] at h
      | ok a' =>
        simp only [Sentence.evaluate, hl, hr, bind, Except.bind, pure, Except.pure, Except.ok.injEq] at h
        rw [Sentence.truth, ihl hl, ihr hr, h]

/-- Evaluation of a ground sentence succeeds where all its letters are interpreted. -/
theorem Sentence.evaluate_of_interprets (w : Char → Bool) (hs : s.isGround) (hi : i.Interprets s) :
    s.evaluate i = .ok (s.truth i.assignment w) := by
  have hocc : ∀ c ∈ s.occurrences, (i.get? c).isSome := fun c hc => hi c (Sentence.mem_letters.mpr hc)
  clear hi
  induction s with
  | atom letter =>
    obtain ⟨a, ha⟩ := Option.isSome_iff_exists.mp (hocc letter (by simp [Sentence.occurrences]))
    simp [Sentence.evaluate, Sentence.truth, Interpretation.assignment, ha]
  | var name => simp [Sentence.isGround] at hs
  | not operand ih => simp [Sentence.evaluate, Sentence.truth, ih hs hocc, bind, Except.bind, pure, Except.pure]
  | binary op lhs rhs ihl ihr =>
    simp only [Sentence.isGround, Bool.and_eq_true] at hs
    have hl := ihl hs.1 fun c hc => hocc c (List.mem_append_left _ hc)
    have hr := ihr hs.2 fun c hc => hocc c (List.mem_append_right _ hc)
    simp [Sentence.evaluate, Sentence.truth, hl, hr, bind, Except.bind, pure, Except.pure]

end Assignments

/-! ## The enumerated interpretations -/

section Enumeration

theorem interpretations_concat (letters : List Char) (c : Char) :
    interpretations (letters ++ [c]) = branch c (interpretations letters) := by
  simp [interpretations, List.foldl_append]

theorem mem_branch {c : Char} {is : List Interpretation} {i : Interpretation} :
    i ∈ branch c is ↔ ∃ j ∈ is, ∃ b, i = j.insert c b := by
  constructor
  · intro h
    obtain ⟨j, hj, hi⟩ := List.mem_flatMap.mp h
    simp only [List.mem_cons, List.not_mem_nil, or_false] at hi
    rcases hi with hi | hi
    · exact ⟨j, hj, true, hi⟩
    · exact ⟨j, hj, false, hi⟩
  · rintro ⟨j, hj, b, rfl⟩
    refine List.mem_flatMap.mpr ⟨j, hj, ?_⟩
    cases b <;> simp

/-- Every enumerated interpretation gives values to the listed letters. -/
theorem isSome_of_mem_interpretations {letters : List Char} {i : Interpretation} (hi : i ∈ interpretations letters)
    {c : Char} (hc : c ∈ letters) : (i.get? c).isSome := by
  induction letters using List.reverseRecOn generalizing i with
  | nil => simp at hc
  | append_singleton letters x ih =>
    rw [interpretations_concat] at hi
    obtain ⟨j, hj, b, rfl⟩ := mem_branch.mp hi
    rw [LetterMap.get?_insert]
    by_cases hcx : c = x
    · rw [if_pos hcx]; rfl
    · rw [if_neg hcx]
      refine ih hj ?_
      rcases List.mem_append.mp hc with h | h
      · exact h
      · exact absurd (List.mem_singleton.mp h) hcx

/-- Every assignment is realised by an enumerated interpretation. -/
theorem exists_mem_interpretations (v : Char → Bool) (letters : List Char) :
    ∃ i ∈ interpretations letters, ∀ c ∈ letters, i.get? c = some (v c) := by
  induction letters using List.reverseRecOn with
  | nil => exact ⟨LetterMap.empty, by simp [interpretations], by simp⟩
  | append_singleton letters x ih =>
    obtain ⟨j, hj, hv⟩ := ih
    refine ⟨j.insert x (v x), ?_, fun c hc => ?_⟩
    · rw [interpretations_concat]
      exact mem_branch.mpr ⟨j, hj, v x, rfl⟩
    · rw [LetterMap.get?_insert]
      by_cases hcx : c = x
      · rw [if_pos hcx, hcx]
      · rw [if_neg hcx]
        rcases List.mem_append.mp hc with h | h
        · exact hv c h
        · exact absurd (List.mem_singleton.mp h) hcx

/-- Over letters that include those of `s`, an enumerated interpretation gives `s` the value that `v` gives it. -/
theorem exists_interprets (v w : Char → Bool) (letters : List Char) :
    ∃ i ∈ interpretations letters, ∀ s : Sentence, (∀ c ∈ s.letters, c ∈ letters) →
      i.Interprets s ∧ s.truth i.assignment w = s.truth v w := by
  obtain ⟨i, hi, hv⟩ := exists_mem_interpretations v letters
  refine ⟨i, hi, fun s hs => ⟨fun c hc => isSome_of_mem_interpretations hi (hs c hc), ?_⟩⟩
  refine Sentence.truth_congr fun c hc => ?_
  simp [Interpretation.assignment, hv c (hs c (Sentence.mem_letters.mpr hc))]

end Enumeration

/-! ## Entailment and tautologies -/

section Entailment

variable {premises : List Sentence} {conclusion s : Sentence}

theorem allTrue_eq (w : Char → Bool) {i : Interpretation} (hg : ∀ p ∈ premises, p.isGround)
    (hi : ∀ p ∈ premises, i.Interprets p) :
    allTrue i premises = .ok (premises.all fun p => p.truth i.assignment w) := by
  induction premises with
  | nil => rfl
  | cons p rest ih =>
    have hp := Sentence.evaluate_of_interprets w (hg p (by simp)) (hi p (by simp))
    have hrest := ih (fun q hq => hg q (by simp [hq])) fun q hq => hi q (by simp [hq])
    cases ht : p.truth i.assignment w <;>
      simp [allTrue, hp, ht, hrest, bind, Except.bind, pure, Except.pure]

theorem entailsOver_eq (w : Char → Bool) (hg : ∀ p ∈ premises, p.isGround) (hc : conclusion.isGround)
    {is : List Interpretation} (hp : ∀ i ∈ is, ∀ p ∈ premises, i.Interprets p)
    (hi : ∀ i ∈ is, i.Interprets conclusion) :
    entailsOver premises conclusion is = .ok (is.all fun i =>
      !(premises.all fun p => p.truth i.assignment w) || conclusion.truth i.assignment w) := by
  induction is with
  | nil => rfl
  | cons i rest ih =>
    have hall := allTrue_eq w hg (hp i (by simp))
    have hcon := Sentence.evaluate_of_interprets w hc (hi i (by simp))
    have hrest := ih (fun j hj => hp j (by simp [hj])) fun j hj => hi j (by simp [hj])
    cases ha : premises.all fun p => p.truth i.assignment w
    · simp [entailsOver, hall, ha, hrest, bind, Except.bind]
    · cases ht : conclusion.truth i.assignment w <;>
        simp [entailsOver, hall, ha, hcon, ht, hrest, bind, Except.bind, pure, Except.pure]

theorem mem_letters_of_premise {p : Sentence} (hp : p ∈ premises) {c : Char} (hc : c ∈ p.letters) :
    c ∈ sortLetters (premises.flatMap Sentence.letters ++ conclusion.letters) :=
  mem_sortLetters.mpr (List.mem_append_left _ (List.mem_flatMap.mpr ⟨p, hp, hc⟩))

theorem mem_letters_of_conclusion {c : Char} (hc : c ∈ conclusion.letters) :
    c ∈ sortLetters (premises.flatMap Sentence.letters ++ conclusion.letters) :=
  mem_sortLetters.mpr (List.mem_append_right _ hc)

/-- On ground sentences there is always an answer. -/
theorem entails_eq (w : Char → Bool) (hg : ∀ p ∈ premises, p.isGround) (hc : conclusion.isGround) :
    entails premises conclusion =
      .ok ((interpretations (sortLetters (premises.flatMap Sentence.letters ++ conclusion.letters))).all fun i =>
        !(premises.all fun p => p.truth i.assignment w) || conclusion.truth i.assignment w) :=
  entailsOver_eq w hg hc
    (fun _ hi _ hp _ hcp => isSome_of_mem_interpretations hi (mem_letters_of_premise hp hcp))
    (fun _ hi _ hcc => isSome_of_mem_interpretations hi (mem_letters_of_conclusion hcc))

/-- **Entailment is consequence under all assignments**, of the letters that do not occur as well. -/
theorem entails_eq_true_iff (w : Char → Bool) (hg : ∀ p ∈ premises, p.isGround) (hc : conclusion.isGround) :
    entails premises conclusion = .ok true ↔
      ∀ v, (∀ p ∈ premises, p.truth v w = true) → conclusion.truth v w = true := by
  rw [entails_eq w hg hc]
  simp only [Except.ok.injEq, List.all_eq_true, Bool.or_eq_true, Bool.not_eq_true', List.all_eq_false]
  constructor
  · intro h v hv
    obtain ⟨i, hi, hs⟩ :=
      exists_interprets v w (sortLetters (premises.flatMap Sentence.letters ++ conclusion.letters))
    rcases h i hi with ⟨p, hp, hpf⟩ | ht
    · rw [(hs p fun _ => mem_letters_of_premise hp).2] at hpf
      exact absurd (hv p hp) hpf
    · rw [← (hs conclusion fun _ => mem_letters_of_conclusion).2]
      exact ht
  · intro h i _
    by_cases hall : ∀ p ∈ premises, p.truth i.assignment w = true
    · exact Or.inr (h _ hall)
    · push Not at hall
      exact Or.inl hall

theorem evaluate_of_allTrue {i : Interpretation} (h : allTrue i premises = .ok true) :
    ∀ p ∈ premises, p.evaluate i = .ok true := by
  induction premises with
  | nil => exact fun p hp => absurd hp List.not_mem_nil
  | cons p rest ih =>
    cases hp : p.evaluate i with
    | error e => simp [allTrue, hp, bind, Except.bind] at h
    | ok b =>
      cases b with
      | false => simp [allTrue, hp, bind, Except.bind, pure, Except.pure] at h
      | true =>
        simp only [allTrue, hp, bind, Except.bind, if_true] at h
        exact List.forall_mem_cons.mpr ⟨hp, ih h⟩

/-- A negative answer rests on an interpretation that refutes the conclusion. -/
theorem exists_of_entailsOver_eq_false {is : List Interpretation}
    (h : entailsOver premises conclusion is = .ok false) :
    ∃ i ∈ is, (∀ p ∈ premises, p.evaluate i = .ok true) ∧ conclusion.evaluate i = .ok false := by
  induction is with
  | nil => simp [entailsOver] at h
  | cons i rest ih =>
    have hlater : entailsOver premises conclusion rest = .ok false →
        ∃ j ∈ i :: rest, (∀ p ∈ premises, p.evaluate j = .ok true) ∧ conclusion.evaluate j = .ok false := by
      intro hrest
      obtain ⟨j, hj, hrefutes⟩ := ih hrest
      exact ⟨j, List.mem_cons_of_mem i hj, hrefutes⟩
    cases hall : allTrue i premises with
    | error e => simp [entailsOver, hall, bind, Except.bind] at h
    | ok a =>
      cases a with
      | false =>
        simp only [entailsOver, hall, bind, Except.bind, Bool.false_eq_true, if_false] at h
        exact hlater h
      | true =>
        cases hcon : conclusion.evaluate i with
        | error e => simp [entailsOver, hall, hcon, bind, Except.bind] at h
        | ok b =>
          cases b with
          | false => exact ⟨i, List.mem_cons_self, evaluate_of_allTrue hall, hcon⟩
          | true =>
            simp only [entailsOver, hall, hcon, bind, Except.bind, if_true] at h
            exact hlater h

/-- **An answer is right even where some premises have no truth value:** what follows under all assignments is never
denied. -/
theorem eq_true_of_entails (w : Char → Bool) {b : Bool}
    (h : ∀ v, (∀ p ∈ premises, p.truth v w = true) → conclusion.truth v w = true)
    (hb : entails premises conclusion = .ok b) : b = true := by
  cases b with
  | true => rfl
  | false =>
    obtain ⟨i, -, hp, hc⟩ := exists_of_entailsOver_eq_false hb
    have htrue := h i.assignment fun p hmem => Sentence.truth_of_evaluate w (hp p hmem)
    rw [Sentence.truth_of_evaluate w hc] at htrue
    exact htrue

theorem split_eq (w : Char → Bool) (hs : s.isGround) {is : List Interpretation} (hi : ∀ i ∈ is, i.Interprets s) :
    s.split is = .ok ⟨is.filter fun i => s.truth i.assignment w, is.filter fun i => !s.truth i.assignment w⟩ := by
  induction is with
  | nil => rfl
  | cons i rest ih =>
    have hv := Sentence.evaluate_of_interprets w hs (hi i (by simp))
    have hrest := ih fun j hj => hi j (by simp [hj])
    cases ht : s.truth i.assignment w <;>
      simp [Sentence.split, hv, ht, hrest, bind, Except.bind, pure, Except.pure]

theorem isTautology_eq (w : Char → Bool) (hs : s.isGround) :
    s.isTautology = .ok ((interpretations s.letters).all fun i => s.truth i.assignment w) := by
  have hi : ∀ i ∈ interpretations s.letters, i.Interprets s := fun i hi c hc => isSome_of_mem_interpretations hi hc
  unfold Sentence.isTautology Sentence.models
  rw [split_eq w hs hi]
  simp only [bind, Except.bind, pure, Except.pure, Except.ok.injEq]
  rw [Bool.eq_iff_iff]
  simp

/-- **Tautologies are the sentences that are true under all assignments.** -/
theorem isTautology_eq_true_iff (w : Char → Bool) (hs : s.isGround) :
    s.isTautology = .ok true ↔ ∀ v, s.truth v w = true := by
  rw [isTautology_eq w hs]
  simp only [Except.ok.injEq, List.all_eq_true]
  constructor
  · intro h v
    obtain ⟨i, hi, ht⟩ := exists_interprets v w s.letters
    rw [← (ht s fun _ hc => hc).2]
    exact h i hi
  · exact fun h i _ => h _

end Entailment

end Deduction
