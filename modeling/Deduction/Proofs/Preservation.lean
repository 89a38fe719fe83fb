import Deduction.Rule.Builtin
import Deduction.Proofs.Matching
import Deduction.Proofs.Truth

/-!
# Truth-preserving rules

A template is truth-preserving if its conclusion is true wherever its premises are, for sentences in place of its
schema variables.  A rule all of whose templates are such never leads from truth to falsehood, whatever lines of the
cited sub-proofs the matching picks.

* `Library.apply_sound`: what a library of truth-preserving templates justifies is true where the premises are.
* `Template.truthPreserving_of_valid`: a template is truth-preserving if its truth table says so.
* `builtin_truthPreserving`: the built-in templates are truth-preserving.
-/

namespace Deduction

/-- Wherever the instances of all premise patterns are true, the instance of the conclusion is.  The substitution gives
ground sentences for the schema variables, and the interpretation gives values to the letters of the instances. -/
def Template.TruthPreserving (t : Template) : Prop :=
  ∀ (σ : Substitution) (i : Interpretation), (t.conclusion.instantiate σ).isGround →
    i.Interprets (t.conclusion.instantiate σ) → (∀ p ∈ t.premises, (p.pattern.instantiate σ).evaluate i = .ok true) →
    (t.conclusion.instantiate σ).evaluate i = .ok true

/-- The sentence of a line is true; "assumption implies line" is true for every line of a sub-proof. -/
def Premise.TrueIn (i : Interpretation) : Premise → Prop
  | .sentence s => s.evaluate i = .ok true
  | .subproof lines => ∀ assumption ∈ lines.head?, ∀ line ∈ lines, (assumption.implies line).evaluate i = .ok true

/-! ## Applications -/

section Applications

variable {t : Template} {σ : Substitution} {premises : List Premise} {conclusion : Sentence} {i : Interpretation}

theorem Template.Instance.exists_fit (hi : t.Instance σ premises conclusion) (hlen : premises.length = t.arity)
    {p : PremisePattern} (hp : p ∈ t.premises) : ∃ q ∈ premises, p.Fits σ q := by
  obtain ⟨n, hn, rfl⟩ := List.getElem_of_mem hp
  have hn' : n < premises.length := hlen ▸ hn
  refine ⟨premises[n], List.getElem_mem hn', hi.fits _ _ ?_⟩
  exact List.mem_iff_getElem.mpr ⟨n, by rw [List.length_zip]; omega, by simp⟩

theorem PremisePattern.Fits.evaluate_eq_true {p : PremisePattern} {q : Premise} (h : p.Fits σ q) (hq : q.TrueIn i) :
    (p.pattern.instantiate σ).evaluate i = .ok true := by
  cases q with
  | sentence s => rw [h.2]; exact hq
  | subproof lines =>
    obtain ⟨assumption, ha, line, hl, heq⟩ := h.2
    rw [heq]
    exact hq assumption ha line hl

theorem Template.apply_sound (ht : t.TruthPreserving) (h : t.apply premises conclusion = .ok σ)
    (hc : conclusion.isGround) (hi : i.Interprets conclusion) (hp : ∀ q ∈ premises, q.TrueIn i) :
    conclusion.evaluate i = .ok true := by
  obtain ⟨padded, hpad, hu⟩ := Template.apply_eq_ok_iff.mp h
  obtain ⟨hlen, hmem⟩ := Template.padded?_eq_some hpad
  have hinst := Template.unify?_sound hu
  rw [← hinst.conclusion_eq] at hc hi ⊢
  refine ht σ i hc hi fun p hpt => ?_
  obtain ⟨q, hq, hfit⟩ := hinst.exists_fit hlen hpt
  exact hfit.evaluate_eq_true (hp q (hmem q hq))

/-- **A truth-preserving library leads from truth to truth.** -/
theorem Library.apply_sound {l : Library} {name : String} (hl : ∀ t ∈ l.templates, t.TruthPreserving)
    (h : l.apply name premises conclusion = .ok σ) (hc : conclusion.isGround) (hi : i.Interprets conclusion)
    (hp : ∀ q ∈ premises, q.TrueIn i) : conclusion.evaluate i = .ok true := by
  obtain ⟨t, ht, ha⟩ := Library.firstFit_eq_ok h
  exact Template.apply_sound (hl t (Library.mem_templates_of_mem_get ht)) ha hc hi hp

end Applications

/-! ## Truth tables of templates -/

/-- An instance has the truth value that the pattern has when its schema variables have the values of their
sentences. -/
theorem Sentence.truth_instantiate (v w : Char → Bool) (σ : Substitution) (p : Sentence) :
    (p.instantiate σ).truth v w = p.truth v fun x => ((Sentence.var x).instantiate σ).truth v w := by
  induction p with
  | atom a => rfl
  | var x => rfl
  | not p ih => rw [Sentence.instantiate, Sentence.truth, ih, Sentence.truth]
  | binary op l r ihl ihr => rw [Sentence.instantiate, Sentence.truth, ihl, ihr, Sentence.truth]

/-- The conclusion of the template is true whenever its premises are, for all truth values of its letters and schema
variables. -/
def Template.Valid (t : Template) : Prop :=
  ∀ v w : Char → Bool, (∀ p ∈ t.premises, p.pattern.truth v w = true) → t.conclusion.truth v w = true

theorem Template.truthPreserving_of_valid {t : Template} (h : t.Valid) : t.TruthPreserving := by
  intro σ i hg hi hp
  let w : Char → Bool := fun x => ((Sentence.var x).instantiate σ).truth i.assignment fun _ => false
  have hprem : ∀ p ∈ t.premises, p.pattern.truth i.assignment w = true := fun p hpt => by
    rw [← Sentence.truth_instantiate]
    exact Sentence.truth_of_evaluate _ (hp p hpt)
  rw [Sentence.evaluate_of_interprets (fun _ => false) hg hi, Sentence.truth_instantiate]
  exact congrArg Except.ok (h i.assignment w hprem)

/-! ## The built-in templates -/

theorem Builtin.valid_of_mem {t : Template} (ht : t ∈ Builtin.templates) : t.Valid := by
  simp only [Builtin.templates, List.mem_cons, List.not_mem_nil, or_false] at ht
  intro v w
  rcases ht with rfl | rfl | rfl | rfl | rfl | rfl | rfl | rfl | rfl | rfl | rfl | rfl | rfl | rfl | rfl | rfl | rfl |
    rfl | rfl | rfl | rfl | rfl | rfl | rfl
  -- one truth table for each template, over the values of its three schema variables
  all_goals
    simp only [Builtin.object, Builtin.overSubproofs, Builtin.repeating, List.map_cons, List.map_nil,
      List.forall_mem_cons, Sentence.truth, Connective.apply]
    cases w 'A' <;> cases w 'B' <;> cases w 'C' <;> simp

/-- **The built-in templates are truth-preserving.** -/
theorem builtin_truthPreserving {t : Template} (ht : t ∈ Library.builtin.templates) : t.TruthPreserving := by
  obtain ⟨name, -, hget⟩ := List.mem_flatMap.mp ht
  exact Template.truthPreserving_of_valid (Builtin.valid_of_mem (Library.mem_get_ofTemplates.mp hget).1)

end Deduction
