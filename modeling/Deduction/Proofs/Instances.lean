import Mathlib.Data.List.Forall2
import Deduction.Proofs.RuleSets

/-!
# Instances of templates

A template justifies a step if one substitution turns it into that step.  The search for the substitution goes from what
is fixed to what is left to choose: the conclusion and the cited lines fix their variables, then each sub-proof offers
one choice per line, and choices have to agree.  `Matching` shows that the search is sound and complete; here the
substitutions that it finds are shown to bind the variables of the template and no others, and the answers of templates
and rules are put together.

* `mem_keys_match`, `Template.mem_keys_unify?`: the variables that a match and the search bind.
* `Template.Justifies`: what it means that a step is an instance.
* `Template.apply_cases`: the three answers of a template.
* `matching_decides_instances`: the answers of templates and of rules are exact.
-/

namespace Deduction

/-! ## The variables that are bound -/

namespace LetterMap

variable {α : Type} {m n : LetterMap α} {x y : Char} {a : α}

theorem mem_keys_iff : x ∈ m.keys ↔ ∃ a, m.get? x = some a := by
  simp [keys, mem_entries_iff]

theorem mem_keys_union : x ∈ (m.union n).keys ↔ x ∈ m.keys ∨ x ∈ n.keys := by
  simp only [mem_keys_iff, get?_union]
  cases m.get? x <;> simp

theorem mem_keys_single : y ∈ (single x a).keys ↔ y = x := List.mem_singleton

end LetterMap

theorem Substitution.mem_keys_join {σ τ ρ : Substitution} {x : Char} (h : σ.join τ = .ok ρ) :
    x ∈ ρ.keys ↔ x ∈ σ.keys ∨ x ∈ τ.keys := by
  obtain ⟨-, rfl⟩ := join_eq_ok_iff.mp h
  exact LetterMap.mem_keys_union

/-- A match binds the variables of the pattern and nothing else. -/
theorem mem_keys_match {p s : Sentence} {σ : Substitution} {x : Char} (h : matchSentence p s = .ok σ) :
    x ∈ σ.keys ↔ x ∈ p.variables := by
  fun_induction matchSentence p s generalizing σ with
  | case1 y s =>
    cases h
    rw [LetterMap.mem_keys_single, Sentence.variables, List.mem_singleton]
  | case2 a =>
    cases h
    rfl
  | case3 => cases h
  | case4 p s ih => exact ih h
  | case5 pl pr op sl sr ihl ihr =>
    obtain ⟨σl, σr, hl, hr, hj⟩ := exists_of_bind_join h
    rw [Substitution.mem_keys_join hj, ihl hl, ihr hr, Sentence.variables, List.mem_append]
  | case6 => cases h
  | case7 => cases h

/-- The schema variables of the conclusion and of the premises. -/
def Template.variables (t : Template) : List Char :=
  t.conclusion.variables ++ t.premises.flatMap fun p => p.pattern.variables

namespace Template

/-- The premises, the last one counted as often as the template needs it: where there are fewer than it takes, but at
least one, and it repeats its last premise. -/
def pad (t : Template) (premises : List Premise) : List Premise :=
  match premises.getLast? with
  | none => premises
  | some last =>
    if t.repeatsLast = true ∧ premises.length < t.arity then
      premises ++ List.replicate (t.arity - premises.length) last
    else premises

theorem padded?_eq (t : Template) (premises : List Premise) :
    t.padded? premises = if (t.pad premises).length = t.arity then some (t.pad premises) else none := by
  unfold padded? pad
  cases hlast : premises.getLast? with
  | none =>
    by_cases hlen : premises.length = t.arity <;> simp [hlen]
  | some last =>
    by_cases hlen : premises.length = t.arity
    · simp [hlen]
    · by_cases hrep : t.repeatsLast = true ∧ premises.length < t.arity
      · have hfull : (premises ++ List.replicate (t.arity - premises.length) last).length = t.arity := by
          rw [List.length_append, List.length_replicate]
          omega
        simp [hlen, hrep, hfull]
      · simp [hlen, hrep]

/-! ## What the search binds -/

section Search

variable {t : Template} {σ ρ fixed : Substitution} {x : Char} {subproofs : List (Sentence × List Sentence)}

/-- Whatever is not bound after the lines is left to the sub-proofs. -/
theorem mem_keys_fixPremises {pairs : List (PremisePattern × Premise)}
    (h : fixPremises σ pairs = some (ρ, subproofs)) :
    (x ∈ ρ.keys ∨ ∃ e ∈ subproofs, x ∈ e.1.variables) ↔ x ∈ σ.keys ∨ ∃ e ∈ pairs, x ∈ e.1.pattern.variables := by
  induction pairs generalizing σ subproofs with
  | nil =>
    cases h
    simp
  | cons pair rest ih =>
    obtain ⟨p, q⟩ := pair
    rcases fixPremises_cons_eq_some h with ⟨s, τ, joined, -, -, hm, hj, hrest⟩ | ⟨lines, more, -, -, rfl, hrest⟩
    · rw [ih hrest, Substitution.mem_keys_join hj, mem_keys_match hm, or_assoc, List.exists_mem_cons_iff]
    · rw [List.exists_mem_cons_iff, List.exists_mem_cons_iff, or_left_comm, ih hrest, or_left_comm]

theorem mem_keys_of_mem_witnesses {τ : Substitution} {pattern : Sentence} {lines : List Sentence}
    (h : τ ∈ witnesses σ pattern lines) : x ∈ τ.keys ↔ x ∈ σ.keys ∨ x ∈ pattern.variables := by
  obtain ⟨assumption, -, line, -, μ, hm, hj⟩ := mem_witnesses.mp h
  rw [Substitution.mem_keys_join hj, mem_keys_match hm]

theorem mem_keys_commonWitness (hfixed : ∀ x ∈ fixed.keys, x ∈ σ.keys)
    (h : commonWitness σ (subproofs.map fun e => witnesses fixed e.1 e.2) = some ρ) :
    x ∈ ρ.keys ↔ x ∈ σ.keys ∨ ∃ e ∈ subproofs, x ∈ e.1.variables := by
  induction subproofs generalizing σ with
  | nil =>
    cases h
    simp
  | cons e rest ih =>
    obtain ⟨τ, hτ, joined, hj, hrest⟩ := commonWitness_cons_eq_some h
    have hjoined : ∀ y, y ∈ joined.keys ↔ y ∈ σ.keys ∨ y ∈ e.1.variables := by
      intro y
      rw [Substitution.mem_keys_join hj, mem_keys_of_mem_witnesses hτ, ← or_assoc, or_iff_left_of_imp (hfixed y)]
    rw [ih (fun y hy => (hjoined y).mpr (Or.inl (hfixed y hy))) hrest, hjoined, or_assoc, List.exists_mem_cons_iff]

/-- **The search binds the variables of the template and nothing else.** -/
theorem mem_keys_unify? {premises : List Premise} {conclusion : Sentence} (hlen : premises.length = t.arity)
    (h : t.unify? premises conclusion = some σ) : x ∈ σ.keys ↔ x ∈ t.variables := by
  obtain ⟨μ, fixed, subproofs, hmatch, hfix, hw⟩ := unify?_eq_some h
  have hpatterns : (t.premises.zip premises).map Prod.fst = t.premises := List.map_fst_zip (Nat.le_of_eq hlen.symm)
  have hzip : (∃ e ∈ t.premises.zip premises, x ∈ e.1.pattern.variables) ↔
      ∃ p ∈ t.premises, x ∈ p.pattern.variables := by
    constructor
    · rintro ⟨e, he, hx⟩
      exact ⟨e.1, (List.of_mem_zip he).1, hx⟩
    · rintro ⟨p, hp, hx⟩
      rw [← hpatterns] at hp
      obtain ⟨e, he, rfl⟩ := List.mem_map.mp hp
      exact ⟨e, he, hx⟩
  rw [mem_keys_commonWitness (fun _ hx => hx) hw, mem_keys_fixPremises hfix, mem_keys_match hmatch, hzip,
    Template.variables, List.mem_append, List.mem_flatMap]

end Search

/-! ## Exact answers -/

/-- The step from `premises` to `conclusion` is what the template becomes under `σ`, which gives sentences for the
variables of the template and no others. -/
structure Justifies (t : Template) (σ : Substitution) (premises : List Premise) (conclusion : Sentence) : Prop where
  domain : ∀ x, x ∈ σ.keys ↔ x ∈ t.variables
  conclusion_eq : t.conclusion.instantiate σ = conclusion
  premises_fit : List.Forall₂ (fun p q => p.Fits σ q) t.premises premises

section Answers

variable {t : Template} {σ : Substitution} {premises : List Premise} {conclusion : Sentence}

theorem Justifies.length_eq (h : t.Justifies σ premises conclusion) : premises.length = t.arity :=
  h.premises_fit.length_eq.symm

theorem Justifies.bound (h : t.Justifies σ premises conclusion) : t.Bound σ := by
  have hbinds : ∀ x ∈ t.variables, (σ.get? x).isSome = true := fun x hx =>
    Option.isSome_iff_exists.mpr (LetterMap.mem_keys_iff.mp ((h.domain x).mpr hx))
  refine ⟨fun x hx => hbinds x (List.mem_append_left _ hx), fun p hp x hx => hbinds x ?_⟩
  exact List.mem_append_right _ (List.mem_flatMap.mpr ⟨p, hp, hx⟩)

/-- What the search finds makes the step an instance. -/
theorem justifies_of_unify? (hlen : premises.length = t.arity) (h : t.unify? premises conclusion = some σ) :
    t.Justifies σ premises conclusion := by
  have hi := unify?_sound h
  exact ⟨fun x => mem_keys_unify? hlen h, hi.conclusion_eq, List.forall₂_iff_zip.mpr ⟨hlen.symm, hi.fits _ _⟩⟩

theorem Justifies.unify?_isSome (h : t.Justifies σ premises conclusion) :
    (t.unify? premises conclusion).isSome = true :=
  unify?_complete h.bound ⟨h.conclusion_eq, fun _ _ hpq => (List.forall₂_iff_zip.mp h.premises_fit).2 hpq⟩

/-- **One of three answers**: the number of premises is wrong, or the step is no instance of the template, or there is
a substitution under which it is one. -/
theorem apply_cases (t : Template) (premises : List Premise) (conclusion : Sentence) :
    ((t.pad premises).length ≠ t.arity ∧ t.apply premises conclusion = .error .wrongPremiseCount) ∨
    ((t.pad premises).length = t.arity ∧ (∀ σ, ¬ t.Justifies σ (t.pad premises) conclusion) ∧
      t.apply premises conclusion = .error .doesNotFit) ∨
    ∃ σ, t.Justifies σ (t.pad premises) conclusion ∧ t.apply premises conclusion = .ok σ := by
  unfold apply
  rw [padded?_eq]
  by_cases hlen : (t.pad premises).length = t.arity
  · rw [if_pos hlen]
    right
    cases hu : t.unify? (t.pad premises) conclusion with
    | none =>
      refine Or.inl ⟨hlen, fun σ hσ => ?_, by simp only [hu]⟩
      have hsome := hσ.unify?_isSome
      rw [hu] at hsome
      cases hsome
    | some σ => exact Or.inr ⟨σ, justifies_of_unify? hlen hu, by simp only [hu]⟩
  · rw [if_neg hlen]
    exact Or.inl ⟨hlen, rfl⟩

theorem exists_apply_eq_ok_iff :
    (∃ σ, t.apply premises conclusion = .ok σ) ↔ ∃ σ, t.Justifies σ (t.pad premises) conclusion := by
  rcases apply_cases t premises conclusion with ⟨hlen, h⟩ | ⟨-, hno, h⟩ | ⟨σ, hσ, h⟩
  · refine iff_of_false (by simp [h]) ?_
    rintro ⟨σ, hσ⟩
    exact hlen hσ.length_eq
  · refine iff_of_false (by simp [h]) ?_
    rintro ⟨σ, hσ⟩
    exact hno σ hσ
  · exact iff_of_true ⟨σ, h⟩ ⟨σ, hσ⟩

end Answers

/-- The template gives the right answer for the step from `premises` to `conclusion`. -/
structure Decides (t : Template) (premises : List Premise) (conclusion : Sentence) : Prop where
  /-- Premises are missing, or there are too many of them. -/
  wrongPremiseCount : t.apply premises conclusion = .error .wrongPremiseCount ↔ (t.pad premises).length ≠ t.arity
  /-- A substitution is found exactly if there is one. -/
  found : (∃ σ, t.apply premises conclusion = .ok σ) ↔ ∃ σ, t.Justifies σ (t.pad premises) conclusion
  /-- What is found is such a substitution. -/
  justifies : ∀ σ, t.apply premises conclusion = .ok σ → t.Justifies σ (t.pad premises) conclusion
  /-- The number of premises is right, but there is no substitution. -/
  doesNotFit : t.apply premises conclusion = .error .doesNotFit ↔
    (t.pad premises).length = t.arity ∧ ∀ σ, ¬ t.Justifies σ (t.pad premises) conclusion

theorem decides (t : Template) (premises : List Premise) (conclusion : Sentence) : t.Decides premises conclusion := by
  rcases apply_cases t premises conclusion with ⟨hlen, h⟩ | ⟨hlen, hno, h⟩ | ⟨σ, hσ, h⟩
  · refine ⟨iff_of_true h hlen, exists_apply_eq_ok_iff, fun σ hσ => ?_, iff_of_false (by simp [h]) ?_⟩
    · rw [h] at hσ
      cases hσ
    · exact fun hfit => hlen hfit.1
  · refine ⟨iff_of_false (by simp [h]) (not_not.mpr hlen), exists_apply_eq_ok_iff, fun σ hσ => ?_, ?_⟩
    · rw [h] at hσ
      cases hσ
    · exact iff_of_true h ⟨hlen, hno⟩
  · refine ⟨iff_of_false (by simp [h]) (not_not.mpr hσ.length_eq), exists_apply_eq_ok_iff, fun τ hτ => ?_, ?_⟩
    · rw [h] at hτ
      cases hτ
      exact hσ
    · exact iff_of_false (by simp [h]) fun hfit => hfit.2 σ hσ

end Template

namespace Library

/-- The rule gives the right answer for the step from `premises` to `conclusion`. -/
structure Decides (l : Library) (name : String) (premises : List Premise) (conclusion : Sentence) : Prop where
  /-- The answer is that of the first template of which the step is an instance. -/
  first : ∀ σ, l.apply name premises conclusion = .ok σ ↔ ∃ front t back, l.get name = front ++ t :: back ∧
    t.apply premises conclusion = .ok σ ∧ ∀ u ∈ front, ∀ τ, ¬ u.Justifies τ (u.pad premises) conclusion
  /-- No template takes that many premises. -/
  wrongPremiseCount : l.apply name premises conclusion = .error .wrongPremiseCount ↔
    ∀ t ∈ l.get name, (t.pad premises).length ≠ t.arity
  /-- Some template takes that many premises, but the step is an instance of none. -/
  doesNotFit : l.apply name premises conclusion = .error .doesNotFit ↔
    (∃ t ∈ l.get name, (t.pad premises).length = t.arity) ∧
      ∀ t ∈ l.get name, ∀ σ, ¬ t.Justifies σ (t.pad premises) conclusion

variable {l : Library} {name : String} {premises : List Premise} {conclusion : Sentence}

theorem apply_eq_ok_iff {σ : Substitution} :
    l.apply name premises conclusion = .ok σ ↔ ∃ front t back, l.get name = front ++ t :: back ∧
      t.apply premises conclusion = .ok σ ∧ ∀ u ∈ front, ∀ τ, ¬ u.Justifies τ (u.pad premises) conclusion := by
  have hno : ∀ u : Template, (u.apply premises conclusion).toOption = none ↔
      ∀ τ, ¬ u.Justifies τ (u.pad premises) conclusion := by
    intro u
    rw [← not_exists, ← Template.exists_apply_eq_ok_iff]
    cases u.apply premises conclusion <;> simp [Except.toOption]
  rw [apply, firstFit_eq_ok_iff, List.findSome?_eq_some_iff]
  simp only [toOption_eq_some_iff, hno]

theorem apply_of_justifies {t : Template} {σ : Substitution} (ht : t ∈ l.get name)
    (h : t.Justifies σ (t.pad premises) conclusion) : ∃ τ, l.apply name premises conclusion = .ok τ :=
  apply_isOk_iff.mpr ⟨t, ht, Template.exists_apply_eq_ok_iff.mpr ⟨σ, h⟩⟩

/-- If the step is an instance of no template, the error tells whether one of them takes the number of premises. -/
theorem apply_of_not_justifies (hno : ∀ t ∈ l.get name, ∀ σ, ¬ t.Justifies σ (t.pad premises) conclusion) :
    (∃ t ∈ l.get name, (t.pad premises).length = t.arity) ∧ l.apply name premises conclusion = .error .doesNotFit ∨
    (∀ t ∈ l.get name, (t.pad premises).length ≠ t.arity) ∧
      l.apply name premises conclusion = .error .wrongPremiseCount := by
  have htaken : (l.get name).any (fun t => (t.padded? premises).isSome) = true ↔
      ∃ t ∈ l.get name, (t.pad premises).length = t.arity := by
    rw [List.any_eq_true]
    refine exists_congr fun t => and_congr_right fun _ => ?_
    rw [Template.padded?_eq]
    split <;> simp_all
  have herror : l.apply name premises conclusion = _ := firstFit_eq_error .wrongPremiseCount fun ⟨t, ht, happ⟩ => by
    obtain ⟨σ, hσ⟩ := Template.exists_apply_eq_ok_iff.mp happ
    exact hno t ht σ hσ
  rw [herror]
  by_cases h : ∃ t ∈ l.get name, (t.pad premises).length = t.arity
  · exact Or.inl ⟨h, by rw [if_pos (htaken.mpr h)]⟩
  · refine Or.inr ⟨fun t ht hlen => h ⟨t, ht, hlen⟩, by rw [if_neg fun hany => h (htaken.mp hany)]⟩

theorem decides (l : Library) (name : String) (premises : List Premise) (conclusion : Sentence) :
    l.Decides name premises conclusion := by
  by_cases hsome : ∃ t ∈ l.get name, ∃ σ, t.Justifies σ (t.pad premises) conclusion
  · obtain ⟨t, ht, σ, hσ⟩ := hsome
    obtain ⟨τ, hτ⟩ := apply_of_justifies ht hσ
    refine ⟨fun _ => apply_eq_ok_iff, iff_of_false (by simp [hτ]) ?_, iff_of_false (by simp [hτ]) ?_⟩
    · exact fun hcount => hcount t ht hσ.length_eq
    · exact fun hfit => hfit.2 t ht σ hσ
  · have hno : ∀ t ∈ l.get name, ∀ σ, ¬ t.Justifies σ (t.pad premises) conclusion := fun t ht σ hσ =>
      hsome ⟨t, ht, σ, hσ⟩
    rcases apply_of_not_justifies hno with ⟨hcount, h⟩ | ⟨hcount, h⟩
    · refine ⟨fun _ => apply_eq_ok_iff, iff_of_false (by simp [h]) ?_, iff_of_true h ⟨hcount, hno⟩⟩
      obtain ⟨t, ht, hlen⟩ := hcount
      exact fun hne => hne t ht hlen
    · refine ⟨fun _ => apply_eq_ok_iff, iff_of_true h hcount, iff_of_false (by simp [h]) ?_⟩
      rintro ⟨⟨t, ht, hlen⟩, -⟩
      exact hcount t ht hlen

end Library

/-- **Matching decides exactly whether a step is an instance of a rule.**  A template is refused for the number of
premises exactly if that number, after padding, is not its arity.  Otherwise it justifies the step exactly if there is
one substitution of its variables under which its conclusion is the conclusion and every premise fits, sub-proofs with a
line of their own choice; the substitution that is found is such a one.  A rule answers with its first template of which
the step is an instance, and without one with an error that tells whether any template takes the number of premises. -/
theorem matching_decides_instances (premises : List Premise) (conclusion : Sentence) :
    (∀ t : Template, t.Decides premises conclusion) ∧
    ∀ (l : Library) (name : String), l.Decides name premises conclusion :=
  ⟨fun t => t.decides premises conclusion, fun l name => l.decides name premises conclusion⟩

/-- Reductio with a sub-proof that is cited once and gives both halves of the contradiction, on two of its lines, so
that `B` is bound by the choice of lines only.  Without any premise there is nothing to repeat. -/
theorem matching_decides_instances_reductio :
    (∃ σ, (Builtin.repeating (Builtin.overSubproofs "RAA" [Builtin.a.implies Builtin.b,
      Builtin.a.implies (.not Builtin.b)] (.not Builtin.a))).apply
        [.subproof [.atom 'p', .not (.atom 'q'), .atom 'q']] (.not (.atom 'p')) = .ok σ ∧ 'B' ∈ σ.keys) ∧
    Library.builtin.apply "RAA" [] (.not (.atom 'p')) = .error .wrongPremiseCount := by
  let t : Template := Builtin.repeating (Builtin.overSubproofs "RAA" [Builtin.a.implies Builtin.b,
    Builtin.a.implies (.not Builtin.b)] (.not Builtin.a))
  let lines : List Sentence := [.atom 'p', .not (.atom 'q'), .atom 'q']
  let σ : Substitution := LetterMap.ofList [('A', .atom 'p'), ('B', .atom 'q')]
  have hvars : σ.keys ⊆ t.variables ∧ t.variables ⊆ σ.keys := by decide
  have hjustifies : t.Justifies σ [.subproof lines, .subproof lines] (.not (.atom 'p')) := by
    refine ⟨fun x => ⟨fun hx => hvars.1 hx, fun hx => hvars.2 hx⟩, rfl, .cons ?_ (.cons ?_ .nil)⟩
    · exact ⟨rfl, .atom 'p', rfl, .atom 'q', by decide, rfl⟩
    · exact ⟨rfl, .atom 'p', rfl, .not (.atom 'q'), by decide, rfl⟩
  have hdecides := (matching_decides_instances [.subproof lines] (.not (.atom 'p'))).1 t
  obtain ⟨τ, hτ⟩ := hdecides.found.mpr ⟨σ, hjustifies⟩
  have hbound : 'B' ∈ τ.keys := ((hdecides.justifies τ hτ).domain 'B').mpr (by decide)
  have hnone := ((matching_decides_instances [] (.not (.atom 'p'))).2 Library.builtin "RAA").wrongPremiseCount
  exact ⟨⟨τ, hτ, hbound⟩, hnone.mpr (by decide)⟩

end Deduction
