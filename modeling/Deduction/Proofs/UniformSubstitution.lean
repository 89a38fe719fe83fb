import Deduction.Proofs.Passes
import Deduction.Proofs.Preservation

/-!
# Uniform substitution

Sentences may be put in place of the letters of a proof.  Where the patterns of the rules have no letters of their own,
an instance of a template becomes an instance of the same template: the sentences of its schema variables change along
with the letters.  Different lines may become equal on the way, so the matching may settle on other lines of a
sub-proof than before; what counts is only that some choice is left.

* `Template.Instance.replaceLetters`: instances of templates.
* `Template.apply_replaceLetters`: applications, with the search for witnesses.
* `check_replaceLetters`: accepted proofs are closed under uniform substitution.
-/

namespace Deduction

/-! ## Sentences in place of letters -/

/-- The sentence with `θ c` in place of every letter `c`. -/
def Sentence.replaceLetters (θ : Char → Sentence) : Sentence → Sentence
  | .atom letter => θ letter
  | .var name => .var name
  | .not operand => .not (operand.replaceLetters θ)
  | .binary op lhs rhs => .binary op (lhs.replaceLetters θ) (rhs.replaceLetters θ)

/-- The premise with `θ c` in place of every letter `c`. -/
def Premise.replaceLetters (θ : Char → Sentence) : Premise → Premise
  | .sentence s => .sentence (s.replaceLetters θ)
  | .subproof lines => .subproof (lines.map (Sentence.replaceLetters θ))

/-- The step with `θ c` in place of every letter `c` of its sentence. -/
def Step.replaceLetters (θ : Char → Sentence) (s : Step) : Step := { s with sentence := s.sentence.replaceLetters θ }

/-- The task with `θ c` in place of every letter `c` of its sentences. -/
def Task.replaceLetters (θ : Char → Sentence) (task : Task) : Task :=
  ⟨task.allowedPremises.map (List.map (Sentence.replaceLetters θ)),
    task.expectedConclusion.map (Sentence.replaceLetters θ)⟩

/-- No letter occurs in the patterns of the template. -/
structure Template.Schematic (t : Template) : Prop where
  conclusion : t.conclusion.occurrences = []
  premise : ∀ p ∈ t.premises, p.pattern.occurrences = []

variable {θ : Char → Sentence}

/-! ## Substitutions -/

section Maps

variable {α β : Type}

theorem LetterMap.lookupEntry_map (f : α → β) (x : Char) (l : List (Char × α)) :
    lookupEntry x (l.map fun e => (e.1, f e.2)) = (lookupEntry x l).map f := by
  induction l with
  | nil => rfl
  | cons e rest ih =>
    simp only [List.map_cons, lookupEntry]
    split
    · rfl
    · exact ih

/-- The map with `f a` in place of every value `a`. -/
def LetterMap.mapValues (f : α → β) (m : LetterMap α) : LetterMap β :=
  ⟨m.entries.map fun e => (e.1, f e.2), by
    rw [List.map_map]
    exact m.increasing⟩

theorem LetterMap.get?_mapValues (f : α → β) (m : LetterMap α) (x : Char) :
    (m.mapValues f).get? x = (m.get? x).map f :=
  lookupEntry_map f x m.entries

end Maps

section Patterns

variable {σ : Substitution} {pattern : Sentence}

theorem Sentence.replaceLetters_instantiate (h : pattern.occurrences = []) :
    (pattern.instantiate σ).replaceLetters θ = pattern.instantiate (σ.mapValues (Sentence.replaceLetters θ)) := by
  induction pattern with
  | atom letter => cases h
  | var x =>
    rw [instantiate, instantiate, LetterMap.get?_mapValues]
    cases σ.get? x <;> rfl
  | not p ih => rw [instantiate, replaceLetters, ih h, instantiate]
  | binary op l r ihl ihr =>
    obtain ⟨hl, hr⟩ := List.append_eq_nil_iff.mp h
    rw [instantiate, replaceLetters, ihl hl, ihr hr, instantiate]

/-- A variable without a binding would stay in the instance. -/
theorem Substitution.binds_of_isGround (h : (pattern.instantiate σ).isGround = true) : σ.Binds pattern := by
  induction pattern with
  | atom letter => exact fun x hx => absurd hx List.not_mem_nil
  | var y =>
    intro x hx
    rw [List.mem_singleton.mp hx]
    cases hy : σ.get? y with
    | none => simp [Sentence.instantiate, hy, Sentence.isGround] at h
    | some s => rfl
  | not p ih => exact ih h
  | binary op l r ihl ihr =>
    obtain ⟨hl, hr⟩ := Bool.and_eq_true_iff.mp h
    intro x hx
    rcases List.mem_append.mp hx with hx | hx
    · exact ihl hl x hx
    · exact ihr hr x hx

theorem Substitution.Binds.mapValues (h : σ.Binds pattern) (f : Sentence → Sentence) :
    Substitution.Binds (σ.mapValues f) pattern := by
  intro x hx
  rw [LetterMap.get?_mapValues, Option.isSome_map]
  exact h x hx

end Patterns

/-! ## Applications -/

/-- All sentences of the premise are ground. -/
def Premise.IsGround : Premise → Prop
  | .sentence s => s.isGround = true
  | .subproof lines => ∀ s ∈ lines, s.isGround = true

section Applications

variable {t : Template} {σ : Substitution} {premises : List Premise} {conclusion : Sentence}

theorem PremisePattern.Fits.replaceLetters {p : PremisePattern} {q : Premise} (hp : p.pattern.occurrences = [])
    (h : p.Fits σ q) : p.Fits (σ.mapValues (Sentence.replaceLetters θ)) (q.replaceLetters θ) := by
  cases q with
  | sentence s => exact ⟨h.1, by rw [← Sentence.replaceLetters_instantiate hp, h.2]⟩
  | subproof lines =>
    obtain ⟨hlevel, assumption, ha, line, hl, heq⟩ := h
    refine ⟨hlevel, assumption.replaceLetters θ, ?_, line.replaceLetters θ, List.mem_map_of_mem hl, ?_⟩
    · rw [Option.mem_def] at ha ⊢
      rw [List.head?_map, ha]
      rfl
    · rw [← Sentence.replaceLetters_instantiate hp, heq]
      rfl

theorem PremisePattern.Fits.binds {p : PremisePattern} {q : Premise} (hq : q.IsGround) (h : p.Fits σ q) :
    σ.Binds p.pattern := by
  apply Substitution.binds_of_isGround
  cases q with
  | sentence s => rw [h.2]; exact hq
  | subproof lines =>
    obtain ⟨-, assumption, ha, line, hl, heq⟩ := h
    rw [heq]
    exact Bool.and_eq_true_iff.mpr ⟨hq assumption (List.mem_of_head? ha), hq line hl⟩

/-- An instance stays one if the schema variables stand for the changed sentences. -/
theorem Template.Instance.replaceLetters (ht : t.Schematic) (h : t.Instance σ premises conclusion) :
    t.Instance (σ.mapValues (Sentence.replaceLetters θ)) (premises.map (Premise.replaceLetters θ))
      (conclusion.replaceLetters θ) := by
  refine ⟨by rw [← Sentence.replaceLetters_instantiate ht.conclusion, h.conclusion_eq], fun p q hpq => ?_⟩
  rw [List.zip_map_right, List.mem_map] at hpq
  obtain ⟨⟨p', q'⟩, hmem, heq⟩ := hpq
  cases heq
  exact (h.fits p' q' hmem).replaceLetters (ht.premise p' (List.of_mem_zip hmem).1)

theorem Template.Instance.bound (h : t.Instance σ premises conclusion) (hlen : premises.length = t.arity)
    (hc : conclusion.isGround = true) (hp : ∀ q ∈ premises, q.IsGround) : t.Bound σ := by
  refine ⟨Substitution.binds_of_isGround (by rw [h.conclusion_eq]; exact hc), fun p hpt => ?_⟩
  obtain ⟨q, hq, hfit⟩ := h.exists_fit hlen hpt
  exact hfit.binds (hp q hq)

theorem Template.Bound.mapValues (h : t.Bound σ) (f : Sentence → Sentence) : t.Bound (σ.mapValues f) :=
  ⟨h.conclusion.mapValues f, fun p hp => (h.premise p hp).mapValues f⟩

theorem Template.padded?_map (f : Premise → Premise) :
    t.padded? (premises.map f) = (t.padded? premises).map (List.map f) := by
  unfold Template.padded?
  rw [List.length_map]
  split
  · rfl
  · split
    · rw [List.getLast?_map]
      cases premises.getLast? <;> simp
    · rfl

/-- **An application of a schematic template stays one.** -/
theorem Template.apply_replaceLetters (ht : t.Schematic) (hc : conclusion.isGround = true)
    (hp : ∀ q ∈ premises, q.IsGround) (h : t.apply premises conclusion = .ok σ) :
    ∃ τ, t.apply (premises.map (Premise.replaceLetters θ)) (conclusion.replaceLetters θ) = .ok τ := by
  obtain ⟨padded, hpad, hu⟩ := Template.apply_eq_ok_iff.mp h
  obtain ⟨hlen, hmem⟩ := Template.padded?_eq_some hpad
  have hinst := Template.unify?_sound hu
  have hbound := hinst.bound hlen hc fun q hq => hp q (hmem q hq)
  -- the search need not find the substitution that comes from `σ`, but that one shows that it finds some
  obtain ⟨τ, hτ⟩ := Option.isSome_iff_exists.mp
    (Template.unify?_complete (hbound.mapValues (Sentence.replaceLetters θ)) (hinst.replaceLetters ht))
  refine ⟨τ, Template.apply_eq_ok_iff.mpr ⟨_, ?_, hτ⟩⟩
  rw [Template.padded?_map, hpad]
  rfl

theorem Library.apply_replaceLetters {l : Library} {name : String} (hl : ∀ t ∈ l.templates, t.Schematic)
    (hc : conclusion.isGround = true) (hp : ∀ q ∈ premises, q.IsGround)
    (h : ∃ σ, l.apply name premises conclusion = .ok σ) :
    ∃ σ, l.apply name (premises.map (Premise.replaceLetters θ)) (conclusion.replaceLetters θ) = .ok σ := by
  obtain ⟨t, ht, σ, ha⟩ := Library.apply_isOk_iff.mp h
  exact Library.apply_isOk_iff.mpr
    ⟨t, ht, Template.apply_replaceLetters (hl t (Library.mem_templates_of_mem_get ht)) hc hp ha⟩

end Applications

/-! ## Steps -/

section Steps

variable {steps : List Step}

theorem stretch_map (f : Step → Step) (first last : Nat) :
    stretch (steps.map f) first last = (stretch steps first last).map f := by
  simp [stretch, List.map_take, List.map_drop]

/-- Scope is about depths and assumptions only. -/
theorem citable_replaceLetters (here : Nat) (c : Citation) :
    citable (steps.map (Step.replaceLetters θ)) here c = citable steps here c := by
  cases c with
  | line line =>
    simp only [citable, lineCitable, List.getElem?_map, stretch_map, List.all_map]
    cases steps[line]? <;> rfl
  | range first last =>
    simp only [citable, rangeCitable, List.getElem?_map, stretch_map, List.all_map]
    cases steps[first]? <;> cases steps[here]? <;> rfl

theorem premise?_replaceLetters (c : Citation) :
    premise? (steps.map (Step.replaceLetters θ)) c = (premise? steps c).map (Premise.replaceLetters θ) := by
  cases c with
  | line line =>
    simp only [premise?, List.getElem?_map]
    cases steps[line]? <;> rfl
  | range first last =>
    simp only [premise?, List.getElem?_map, List.length_map, stretch_map]
    split
    · cases steps[first]? with
      | none => rfl
      | some s =>
        simp only [Option.map_some, Premise.replaceLetters, List.filter_map, List.map_map]
        rfl
    · rfl

theorem isGround_of_premise? (hg : ∀ s ∈ steps, s.sentence.isGround = true) {c : Citation} {q : Premise}
    (h : premise? steps c = some q) : q.IsGround := by
  cases c with
  | line line =>
    obtain ⟨s, hs, rfl⟩ := Option.map_eq_some_iff.mp h
    exact hg s (List.mem_of_getElem? hs)
  | range first last =>
    simp only [premise?] at h
    split at h
    · obtain ⟨s, -, rfl⟩ := Option.map_eq_some_iff.mp h
      intro a ha
      obtain ⟨u, hu, rfl⟩ := List.mem_map.mp ha
      have hmem := (List.mem_filter.mp hu).1
      exact hg u (List.mem_of_mem_take (List.mem_of_mem_drop hmem))
    · cases h

namespace Proof

theorem citedPremises_replaceLetters (s : Step) :
    citedPremises (steps.map (Step.replaceLetters θ)) (s.replaceLetters θ) =
      (citedPremises steps s).map (Premise.replaceLetters θ) := by
  simp only [citedPremises, List.map_filterMap, premise?_replaceLetters]
  rfl

theorem Accepted.replaceLetters {library : Library} {allowed : Option (List Sentence)}
    (hl : ∀ t ∈ library.templates, t.Schematic) (hg : ∀ s ∈ steps, s.sentence.isGround = true)
    (h : Accepted library allowed steps) :
    Accepted library (allowed.map (List.map (Sentence.replaceLetters θ))) (steps.map (Step.replaceLetters θ)) := by
  refine ⟨fun i s hs => ?_, fun i s hs c hc => ?_, fun sentences hsen s hs hp => ?_, fun s hs hp ha => ?_⟩
  · rw [List.getElem?_map] at hs
    obtain ⟨s', hs', rfl⟩ := Option.map_eq_some_iff.mp hs
    exact h.numbered i s' hs'
  · rw [List.getElem?_map] at hs
    obtain ⟨s', hs', rfl⟩ := Option.map_eq_some_iff.mp hs
    rw [citable_replaceLetters]
    exact h.inScope i s' hs' c hc
  · obtain ⟨s', hs', rfl⟩ := List.mem_map.mp hs
    obtain ⟨sentences', hsen', rfl⟩ := Option.map_eq_some_iff.mp hsen
    exact List.mem_map_of_mem (h.allowed sentences' hsen' s' hs' hp)
  · obtain ⟨s', hs', rfl⟩ := List.mem_map.mp hs
    rw [citedPremises_replaceLetters]
    refine Library.apply_replaceLetters hl (hg s' hs') (fun q hq => ?_) (h.justified s' hs' hp ha)
    obtain ⟨c, -, hc⟩ := List.mem_filterMap.mp hq
    exact isGround_of_premise? hg hc

end Proof

end Steps

/-! ## Accepted proofs -/

theorem Builtin.schematic_of_mem {t : Template} (ht : t ∈ Library.builtin.templates) : t.Schematic := by
  obtain ⟨name, -, hget⟩ := List.mem_flatMap.mp ht
  have hmem := (Library.mem_get_ofTemplates.mp hget).1
  have hall : ∀ t ∈ Builtin.templates,
      t.conclusion.occurrences = [] ∧ ∀ p ∈ t.premises, p.pattern.occurrences = [] := by decide
  exact ⟨(hall t hmem).1, (hall t hmem).2⟩

/-- **Accepted proofs are closed under uniform substitution.**  If the patterns of the rules have no letters, then a
list of ground steps that is accepted stays accepted when sentences are put in place of its letters, and in place of
those of the allowed premises and the expected conclusion. -/
theorem check_replaceLetters {library : Library} (hl : ∀ t ∈ library.templates, t.Schematic) {steps : List Step}
    (hg : ∀ s ∈ steps, s.sentence.isGround = true) (task : Task) (θ : Char → Sentence)
    (h : Proof.check library task ⟨steps⟩ = .ok ()) :
    Proof.check library (task.replaceLetters θ) ⟨steps.map (Step.replaceLetters θ)⟩ = .ok () := by
  rw [Proof.check_eq_ok_iff, Proof.fault?_eq_none_iff] at h ⊢
  obtain ⟨hacc, hconclusion⟩ := h
  refine ⟨hacc.replaceLetters hl hg, fun c hc => ?_⟩
  obtain ⟨c', hc', rfl⟩ := Option.map_eq_some_iff.mp hc
  obtain ⟨s, hs, hsentence⟩ := hconclusion c' hc'
  exact ⟨s.replaceLetters θ, List.mem_map_of_mem hs, congrArg (Sentence.replaceLetters θ) hsentence⟩

/-- A reductio in which the assumption and the two halves of the contradiction become instances of one sentence. -/
theorem check_replaceLetters_reductio :
    Proof.check Library.builtin ⟨some [.atom 'q', .not (.atom 'q')], some (.not (.atom 'p'))⟩
      ⟨[⟨0, 0, 1, .atom 'q', ⟨"V", []⟩⟩, ⟨1, 1, 1, .not (.atom 'q'), ⟨"V", []⟩⟩, ⟨3, 2, 2, .atom 'p', ⟨"A", []⟩⟩,
        ⟨5, 3, 2, .atom 'q', ⟨"R", [.line 0]⟩⟩, ⟨6, 4, 2, .not (.atom 'q'), ⟨"R", [.line 1]⟩⟩,
        ⟨7, 5, 1, .not (.atom 'p'), ⟨"RAA", [.range 2 4]⟩⟩]⟩ = .ok () ∧
    Proof.check Library.builtin ⟨some [.not (.atom 'r'), .not (.not (.atom 'r'))], some (.not (.not (.atom 'r')))⟩
      ⟨[⟨0, 0, 1, .not (.atom 'r'), ⟨"V", []⟩⟩, ⟨1, 1, 1, .not (.not (.atom 'r')), ⟨"V", []⟩⟩,
        ⟨3, 2, 2, .not (.atom 'r'), ⟨"A", []⟩⟩, ⟨5, 3, 2, .not (.atom 'r'), ⟨"R", [.line 0]⟩⟩,
        ⟨6, 4, 2, .not (.not (.atom 'r')), ⟨"R", [.line 1]⟩⟩,
        ⟨7, 5, 1, .not (.not (.atom 'r')), ⟨"RAA", [.range 2 4]⟩⟩]⟩ = .ok () := by
  let steps : List Step := [⟨0, 0, 1, .atom 'q', ⟨"V", []⟩⟩, ⟨1, 1, 1, .not (.atom 'q'), ⟨"V", []⟩⟩,
    ⟨3, 2, 2, .atom 'p', ⟨"A", []⟩⟩, ⟨5, 3, 2, .atom 'q', ⟨"R", [.line 0]⟩⟩,
    ⟨6, 4, 2, .not (.atom 'q'), ⟨"R", [.line 1]⟩⟩, ⟨7, 5, 1, .not (.atom 'p'), ⟨"RAA", [.range 2 4]⟩⟩]
  let task : Task := ⟨some [.atom 'q', .not (.atom 'q')], some (.not (.atom 'p'))⟩
  have hground : ∀ s ∈ steps, s.sentence.isGround = true := by decide
  have hcheck : Proof.check Library.builtin task ⟨steps⟩ = .ok () := by decide +kernel
  exact ⟨hcheck, check_replaceLetters (fun t ht => Builtin.schematic_of_mem ht) hground task
    (fun _ => .not (.atom 'r')) hcheck⟩

end Deduction
