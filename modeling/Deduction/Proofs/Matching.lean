import Mathlib.Tactic.Common
import Deduction.Rule.Library

/-!
# Matching

Substitutions are ordered by `Extends`: the larger one has all bindings of the smaller.  In this order `join` yields
least upper bounds, and `matchSentence` the least substitution that turns a pattern into a sentence.

* `Substitution.join_extends`, `Substitution.join_least`: joining two substitutions.
* `instantiate_of_match`, `match_least`: matching a pattern against a sentence.
* `Template.unify?_sound`, `Template.unify?_complete`: the search for a substitution under which the premises and the
  conclusion are an instance of a template finds one exactly if there is one.
-/

namespace Deduction

/-! ## Look-ups in finite maps -/

namespace LetterMap

variable {α : Type}

theorem lookupEntry_eq_some_iff {x : Char} {a : α} {l : List (Char × α)} (h : (l.map Prod.fst).Pairwise (· < ·)) :
    lookupEntry x l = some a ↔ (x, a) ∈ l := by
  induction l with
  | nil => simp [lookupEntry]
  | cons e rest ih =>
    obtain ⟨y, b⟩ := e
    simp only [List.map_cons, List.pairwise_cons] at h
    by_cases hxy : x = y
    · subst hxy
      have hnot : (x, a) ∉ rest := fun hm => Char.lt_irrefl x (h.1 x (List.mem_map.mpr ⟨_, hm, rfl⟩))
      simp only [lookupEntry, if_true, List.mem_cons, Prod.mk.injEq, true_and, Option.some.injEq, hnot, or_false]
      exact eq_comm
    · simp [lookupEntry, hxy, ih h.2]

theorem mem_entries_iff {m : LetterMap α} {x : Char} {a : α} : (x, a) ∈ m.entries ↔ m.get? x = some a :=
  (lookupEntry_eq_some_iff m.increasing).symm

theorem get?_foldl_insert {l : List (Char × α)} (h : (l.map Prod.fst).Pairwise (· < ·)) (n : LetterMap α) (x : Char) :
    (l.foldl (fun acc p => acc.insert p.1 p.2) n).get? x = (lookupEntry x l).or (n.get? x) := by
  induction l generalizing n with
  | nil => rfl
  | cons e rest ih =>
    obtain ⟨y, b⟩ := e
    simp only [List.map_cons, List.pairwise_cons] at h
    rw [List.foldl_cons, ih h.2, get?_insert]
    by_cases hxy : x = y
    · subst hxy
      rw [lookupEntry_eq_none_of_lt h.1]
      simp [lookupEntry]
    · simp [lookupEntry, hxy]

theorem get?_union (m n : LetterMap α) (x : Char) : (m.union n).get? x = (m.get? x).or (n.get? x) :=
  get?_foldl_insert m.increasing n x

theorem get?_single (x y : Char) (a : α) : (single x a).get? y = if y = x then some a else none := rfl

end LetterMap

/-! ## The order of substitutions -/

namespace Substitution

/-- `ρ` has all bindings of `σ`. -/
def Extends (ρ σ : Substitution) : Prop := ∀ x s, σ.get? x = some s → ρ.get? x = some s

variable {σ τ ρ θ : Substitution}

theorem Extends.refl (σ : Substitution) : σ.Extends σ := fun _ _ h => h

theorem Extends.trans (h : θ.Extends ρ) (h' : ρ.Extends σ) : θ.Extends σ := fun x s hx => h x s (h' x s hx)

theorem extends_empty (σ : Substitution) : σ.Extends LetterMap.empty := fun _ _ h => by cases h

theorem extends_single {x : Char} {s : Sentence} : σ.Extends (LetterMap.single x s) ↔ σ.get? x = some s := by
  constructor
  · intro h
    exact h x s (by simp [LetterMap.get?_single])
  · intro h y t hy
    rw [LetterMap.get?_single] at hy
    split at hy
    next hyx =>
      cases hy
      rw [hyx]
      exact h
    next => cases hy

theorem join_eq_ok_iff : σ.join τ = .ok ρ ↔
    (∀ x s t, σ.get? x = some s → τ.get? x = some t → s = t) ∧ ρ = σ.union τ := by
  have hjoin : σ.join τ =
      if (τ.entries.all fun e => σ.allows e.1 e.2) = true then .ok (σ.union τ) else .error .variableClash := rfl
  have hall : (τ.entries.all fun e => σ.allows e.1 e.2) = true ↔
      ∀ x s t, σ.get? x = some s → τ.get? x = some t → s = t := by
    rw [List.all_eq_true]
    constructor
    · intro h x s t hs ht
      have := h (x, t) (LetterMap.mem_entries_iff.mpr ht)
      simpa [allows, hs] using this
    · rintro h ⟨x, t⟩ hm
      have ht := LetterMap.mem_entries_iff.mp hm
      cases hs : σ.get? x with
      | none => simp [allows, hs]
      | some s => simp [allows, hs, h x s t hs ht]
  rw [hjoin]
  by_cases h : (τ.entries.all fun e => σ.allows e.1 e.2) = true
  · rw [if_pos h, Except.ok.injEq]
    constructor
    · intro he
      exact ⟨hall.mp h, he.symm⟩
    · rintro ⟨-, rfl⟩
      rfl
  · rw [if_neg h]
    simp only [reduceCtorEq, false_iff, not_and]
    intro h'
    exact absurd (hall.mpr h') h

/-- A join has the bindings of both sides. -/
theorem join_extends (h : σ.join τ = .ok ρ) : ρ.Extends σ ∧ ρ.Extends τ := by
  obtain ⟨hag, rfl⟩ := join_eq_ok_iff.mp h
  refine ⟨fun x s hs => ?_, fun x t ht => ?_⟩
  · rw [LetterMap.get?_union, hs]
    rfl
  · rw [LetterMap.get?_union]
    cases hs : σ.get? x with
    | none => simpa using ht
    | some s => simp [hag x s t hs ht]

/-- A join exists below every common extension of both sides. -/
theorem join_least (hσ : θ.Extends σ) (hτ : θ.Extends τ) : ∃ ρ, σ.join τ = .ok ρ ∧ θ.Extends ρ := by
  refine ⟨σ.union τ, join_eq_ok_iff.mpr ⟨fun x s t hs ht => ?_, rfl⟩, fun x s hx => ?_⟩
  · have h1 := hσ x s hs
    rw [hτ x t ht] at h1
    exact (Option.some.inj h1).symm
  · rw [LetterMap.get?_union] at hx
    rcases Option.or_eq_some_iff.mp hx with h | ⟨-, h⟩
    · exact hσ x s h
    · exact hτ x s h

end Substitution

/-! ## Patterns and sentences -/

/-- The schema variables from left to right, each as often as it occurs. -/
def Sentence.variables : Sentence → List Char
  | .atom _ => []
  | .var name => [name]
  | .not operand => operand.variables
  | .binary _ lhs rhs => lhs.variables ++ rhs.variables

/-- The substitution has a sentence for every schema variable of the pattern. -/
def Substitution.Binds (σ : Substitution) (pattern : Sentence) : Prop := ∀ x ∈ pattern.variables, (σ.get? x).isSome

section Patterns

variable {p s : Sentence} {σ θ : Substitution}

/-- Where two matches are joined, both have succeeded. -/
theorem exists_of_bind_join {a b : Except MatchError Substitution}
    (h : (do let σ ← a; let τ ← b; σ.join τ) = .ok θ) : ∃ σ τ, a = .ok σ ∧ b = .ok τ ∧ σ.join τ = .ok θ := by
  cases a with
  | error e => cases h
  | ok σ =>
    cases b with
    | error e => cases h
    | ok τ => exact ⟨σ, τ, rfl, rfl, h⟩

/-- A match turns the pattern into the sentence, and so does every extension of it. -/
theorem instantiate_of_match (h : matchSentence p s = .ok σ) (hθ : θ.Extends σ) : p.instantiate θ = s := by
  fun_induction matchSentence p s generalizing σ with
  | case1 x s =>
    cases h
    simp [Sentence.instantiate, Substitution.extends_single.mp hθ]
  | case2 a => rfl
  | case3 => cases h
  | case4 p s ih => rw [Sentence.instantiate, ih h hθ]
  | case5 pl pr op sl sr ihl ihr =>
    obtain ⟨σl, σr, hl, hr, hj⟩ := exists_of_bind_join h
    obtain ⟨h1, h2⟩ := Substitution.join_extends hj
    rw [Sentence.instantiate, ihl hl (hθ.trans h1), ihr hr (hθ.trans h2)]
  | case6 => cases h
  | case7 => cases h

/-- Where some substitution turns the pattern into the sentence, there is a match, and the substitution extends it. -/
theorem match_least (hb : θ.Binds p) : ∃ σ, matchSentence p (p.instantiate θ) = .ok σ ∧ θ.Extends σ := by
  induction p with
  | atom a => exact ⟨LetterMap.empty, by simp [Sentence.instantiate, matchSentence], θ.extends_empty⟩
  | var x =>
    obtain ⟨s, hs⟩ := Option.isSome_iff_exists.mp (hb x (by simp [Sentence.variables]))
    refine ⟨LetterMap.single x s, ?_, Substitution.extends_single.mpr hs⟩
    simp [Sentence.instantiate, hs, matchSentence]
  | not p ih =>
    obtain ⟨σ, hσ, hθ⟩ := ih hb
    exact ⟨σ, by simpa [Sentence.instantiate, matchSentence] using hσ, hθ⟩
  | binary op pl pr ihl ihr =>
    obtain ⟨σl, hl, hθl⟩ := ihl fun x hx => hb x (List.mem_append_left _ hx)
    obtain ⟨σr, hr, hθr⟩ := ihr fun x hx => hb x (List.mem_append_right _ hx)
    obtain ⟨ρ, hρ, hθ⟩ := Substitution.join_least hθl hθr
    refine ⟨ρ, ?_, hθ⟩
    simp [Sentence.instantiate, matchSentence, hl, hr, hρ, bind, Except.bind]

end Patterns

/-! ## Templates and premises -/

/-- Under `σ`, the pattern is "assumption implies line" for a line of the sub-proof. -/
def Sentence.FitsSubproof (σ : Substitution) (pattern : Sentence) (lines : List Sentence) : Prop :=
  ∃ assumption ∈ lines.head?, ∃ line ∈ lines, pattern.instantiate σ = assumption.implies line

/-- Under `σ`, the pattern of a premise is what a step cites. -/
def PremisePattern.Fits (σ : Substitution) (p : PremisePattern) : Premise → Prop
  | .sentence s => p.level = .object ∧ p.pattern.instantiate σ = s
  | .subproof lines => p.level = .metaLevel ∧ p.pattern.FitsSubproof σ lines

namespace Template

/-- Under `σ`, the template is the step from `premises` to `conclusion`. -/
structure Instance (t : Template) (σ : Substitution) (premises : List Premise) (conclusion : Sentence) : Prop where
  conclusion_eq : t.conclusion.instantiate σ = conclusion
  fits : ∀ p q, (p, q) ∈ t.premises.zip premises → p.Fits σ q

/-- The substitution has a sentence for every schema variable of the template. -/
structure Bound (t : Template) (σ : Substitution) : Prop where
  conclusion : σ.Binds t.conclusion
  premise : ∀ p ∈ t.premises, σ.Binds p.pattern

variable {σ ρ θ : Substitution} {pairs : List (PremisePattern × Premise)} {subproofs : List (Sentence × List Sentence)}

/-- One premise: a line fixes more of the substitution, a sub-proof is set aside. -/
theorem fixPremises_cons_eq_some {p : PremisePattern} {q : Premise}
    (h : fixPremises σ ((p, q) :: pairs) = some (ρ, subproofs)) :
    (∃ s τ joined, p.level = .object ∧ q = .sentence s ∧ matchSentence p.pattern s = .ok τ ∧ σ.join τ = .ok joined ∧
      fixPremises joined pairs = some (ρ, subproofs)) ∨
    ∃ lines more, p.level = .metaLevel ∧ q = .subproof lines ∧ subproofs = (p.pattern, lines) :: more ∧
      fixPremises σ pairs = some (ρ, more) := by
  obtain ⟨level, pattern⟩ := p
  cases level <;> cases q <;> simp only [fixPremises, reduceCtorEq] at h
  next s =>
    cases hm : matchSentence pattern s with
    | error e => simp [hm, Except.toOption] at h
    | ok τ =>
      cases hj : σ.join τ with
      | error e => simp [hm, hj, Except.toOption] at h
      | ok joined =>
        simp only [hm, hj, Except.toOption, Option.bind_eq_bind, Option.bind_some] at h
        exact Or.inl ⟨s, τ, joined, rfl, rfl, hm, hj, h⟩
  next lines =>
    cases hf : fixPremises σ pairs with
    | none => simp [hf] at h
    | some r =>
      obtain ⟨fixed, more⟩ := r
      simp only [hf, Option.bind_eq_bind, Option.bind_some, pure, Option.some.injEq, Prod.mk.injEq] at h
      obtain ⟨rfl, rfl⟩ := h
      exact Or.inr ⟨lines, more, rfl, rfl, rfl, rfl⟩

theorem fixPremises_sound (h : fixPremises σ pairs = some (ρ, subproofs)) :
    ρ.Extends σ ∧ ∀ θ : Substitution, θ.Extends ρ →
      (∀ p lines, (p, lines) ∈ subproofs → p.FitsSubproof θ lines) → ∀ p q, (p, q) ∈ pairs → p.Fits θ q := by
  induction pairs generalizing σ subproofs with
  | nil =>
    cases h
    exact ⟨.refl _, fun _ _ _ _ _ hm => by cases hm⟩
  | cons pair rest ih =>
    obtain ⟨pattern, premise⟩ := pair
    rcases fixPremises_cons_eq_some h with
      ⟨s, τ, joined, hlevel, rfl, hm, hj, hrest⟩ | ⟨lines, more, hlevel, rfl, rfl, hrest⟩
    · obtain ⟨hρ, hfit⟩ := ih hrest
      obtain ⟨h1, h2⟩ := Substitution.join_extends hj
      refine ⟨hρ.trans h1, fun θ hθ hsub p q hpq => ?_⟩
      rcases List.mem_cons.mp hpq with heq | hpq
      · cases heq
        exact ⟨hlevel, instantiate_of_match hm ((hθ.trans hρ).trans h2)⟩
      · exact hfit θ hθ hsub p q hpq
    · obtain ⟨hρ, hfit⟩ := ih hrest
      refine ⟨hρ, fun θ hθ hsub p q hpq => ?_⟩
      rcases List.mem_cons.mp hpq with heq | hpq
      · cases heq
        exact ⟨hlevel, hsub _ _ (by simp)⟩
      · exact hfit θ hθ (fun p lines hp => hsub p lines (by simp [hp])) p q hpq

theorem fixPremises_complete (hσ : θ.Extends σ) (hb : ∀ p q, (p, q) ∈ pairs → θ.Binds p.pattern)
    (hf : ∀ p q, (p, q) ∈ pairs → p.Fits θ q) :
    ∃ ρ subproofs, fixPremises σ pairs = some (ρ, subproofs) ∧ θ.Extends ρ ∧
      ∀ p lines, (p, lines) ∈ subproofs → θ.Binds p ∧ p.FitsSubproof θ lines := by
  induction pairs generalizing σ with
  | nil => exact ⟨σ, [], rfl, hσ, fun _ _ hm => by cases hm⟩
  | cons pair rest ih =>
    obtain ⟨⟨level, pattern⟩, premise⟩ := pair
    have hb' : ∀ p q, (p, q) ∈ rest → θ.Binds p.pattern := fun p q h => hb p q (by simp [h])
    have hf' : ∀ p q, (p, q) ∈ rest → p.Fits θ q := fun p q h => hf p q (by simp [h])
    have hbp : θ.Binds pattern := hb ⟨level, pattern⟩ premise (by simp)
    cases premise with
    | sentence s =>
      obtain ⟨rfl, rfl⟩ := hf ⟨level, pattern⟩ (.sentence s) (by simp)
      obtain ⟨τ, hτ, hθτ⟩ := match_least hbp
      obtain ⟨joined, hj, hθj⟩ := Substitution.join_least hσ hθτ
      obtain ⟨ρ, subproofs, hfix, hρ, hsub⟩ := ih hθj hb' hf'
      exact ⟨ρ, subproofs, by simp [fixPremises, hτ, hj, hfix, Except.toOption], hρ, hsub⟩
    | subproof lines =>
      obtain ⟨rfl, hfit⟩ := hf ⟨level, pattern⟩ (.subproof lines) (by simp)
      obtain ⟨ρ, subproofs, hfix, hρ, hsub⟩ := ih hσ hb' hf'
      refine ⟨ρ, (pattern, lines) :: subproofs, by simp [fixPremises, hfix], hρ, fun p ls hm => ?_⟩
      rcases List.mem_cons.mp hm with heq | hrest
      · cases heq
        exact ⟨hbp, hfit⟩
      · exact hsub p ls hrest

/-! ### The choice of lines -/

variable {pattern : Sentence} {lines : List Sentence}

theorem mem_witnesses {τ : Substitution} : τ ∈ witnesses σ pattern lines ↔
    ∃ assumption ∈ lines.head?, ∃ line ∈ lines, ∃ μ,
      matchSentence pattern (assumption.implies line) = .ok μ ∧ σ.join μ = .ok τ := by
  cases lines with
  | nil => simp [witnesses]
  | cons assumption rest =>
    have hstep : ∀ line, ((matchSentence pattern (assumption.implies line) >>= σ.join).toOption = some τ ↔
        ∃ μ, matchSentence pattern (assumption.implies line) = .ok μ ∧ σ.join μ = .ok τ) := by
      intro line
      cases hm : matchSentence pattern (assumption.implies line) with
      | error e => simp [bind, Except.bind, Except.toOption]
      | ok μ => cases hj : σ.join μ <;> simp [bind, Except.bind, Except.toOption, hj]
    simp only [witnesses, List.mem_filterMap, hstep, List.head?_cons, Option.mem_def, Option.some.injEq,
      exists_eq_left']

theorem witness_sound {τ : Substitution} (h : τ ∈ witnesses σ pattern lines) :
    τ.Extends σ ∧ ∀ θ : Substitution, θ.Extends τ → pattern.FitsSubproof θ lines := by
  obtain ⟨assumption, ha, line, hl, μ, hm, hj⟩ := mem_witnesses.mp h
  obtain ⟨h1, h2⟩ := Substitution.join_extends hj
  exact ⟨h1, fun θ hθ => ⟨assumption, ha, line, hl, instantiate_of_match hm (hθ.trans h2)⟩⟩

theorem witness_complete (hσ : θ.Extends σ) (hb : θ.Binds pattern) (hf : pattern.FitsSubproof θ lines) :
    ∃ τ ∈ witnesses σ pattern lines, θ.Extends τ := by
  obtain ⟨assumption, ha, line, hl, heq⟩ := hf
  obtain ⟨μ, hm, hθμ⟩ := match_least hb
  obtain ⟨τ, hτ, hθτ⟩ := Substitution.join_least hσ hθμ
  exact ⟨τ, mem_witnesses.mpr ⟨assumption, ha, line, hl, μ, heq ▸ hm, hτ⟩, hθτ⟩

theorem commonWitness_cons_eq_some {choice : List Substitution} {choices : List (List Substitution)}
    (h : commonWitness σ (choice :: choices) = some ρ) :
    ∃ τ ∈ choice, ∃ joined, σ.join τ = .ok joined ∧ commonWitness joined choices = some ρ := by
  obtain ⟨τ, hτ, hsome⟩ := List.exists_of_findSome?_eq_some h
  cases hj : σ.join τ with
  | error e => simp [hj] at hsome
  | ok joined => exact ⟨τ, hτ, joined, hj, by simpa only [hj] using hsome⟩

theorem commonWitness_sound {choices : List (List Substitution)} (h : commonWitness σ choices = some ρ) :
    ρ.Extends σ ∧ ∀ choice ∈ choices, ∃ τ ∈ choice, ρ.Extends τ := by
  induction choices generalizing σ with
  | nil =>
    cases h
    exact ⟨.refl _, fun _ hm => by cases hm⟩
  | cons choice rest ih =>
    obtain ⟨τ, hτ, joined, hj, hsome⟩ := commonWitness_cons_eq_some h
    obtain ⟨h1, h2⟩ := Substitution.join_extends hj
    obtain ⟨hρ, hrest⟩ := ih hsome
    refine ⟨hρ.trans h1, fun c hc => ?_⟩
    rcases List.mem_cons.mp hc with rfl | hc
    · exact ⟨τ, hτ, hρ.trans h2⟩
    · exact hrest c hc

theorem commonWitness_complete {choices : List (List Substitution)} (hσ : θ.Extends σ)
    (h : ∀ choice ∈ choices, ∃ τ ∈ choice, θ.Extends τ) : (commonWitness σ choices).isSome := by
  induction choices generalizing σ with
  | nil => rfl
  | cons choice rest ih =>
    obtain ⟨τ, hτ, hθτ⟩ := h choice (by simp)
    obtain ⟨joined, hj, hθj⟩ := Substitution.join_least hσ hθτ
    have hrest := ih hθj fun c hc => h c (by simp [hc])
    -- the search stops at the latest at the choice that `θ` extends
    rw [commonWitness, List.findSome?_isSome_iff]
    exact ⟨τ, hτ, by simpa [hj] using hrest⟩

/-! ### Templates and libraries -/

variable {t : Template} {premises : List Premise} {conclusion : Sentence}

/-- The conclusion and the lines among the premises fix a part of the substitution, the sub-proofs the rest. -/
theorem unify?_eq_some (h : t.unify? premises conclusion = some σ) : ∃ μ fixed subproofs,
    matchSentence t.conclusion conclusion = .ok μ ∧
    fixPremises μ (t.premises.zip premises) = some (fixed, subproofs) ∧
    commonWitness fixed (subproofs.map fun e => witnesses fixed e.1 e.2) = some σ := by
  simp only [unify?, Option.bind_eq_bind, Option.bind_eq_some_iff] at h
  obtain ⟨μ, hm, ⟨fixed, subproofs⟩, hfix, hw⟩ := h
  cases hc : matchSentence t.conclusion conclusion with
  | error e => simp [hc, Except.toOption] at hm
  | ok μ' =>
    obtain rfl : μ' = μ := by simpa [hc, Except.toOption] using hm
    exact ⟨μ', fixed, subproofs, rfl, hfix, hw⟩

/-- What the search finds is an instance of the template. -/
theorem unify?_sound (h : t.unify? premises conclusion = some σ) : t.Instance σ premises conclusion := by
  obtain ⟨μ, fixed, subproofs, hmatch, hfix, hw⟩ := unify?_eq_some h
  obtain ⟨hσ, hchoice⟩ := commonWitness_sound hw
  obtain ⟨hfixed, hfit⟩ := fixPremises_sound hfix
  refine ⟨instantiate_of_match hmatch (hσ.trans hfixed), hfit σ hσ fun p lines hp => ?_⟩
  obtain ⟨τ, hτ, hστ⟩ := hchoice _ (List.mem_map.mpr ⟨(p, lines), hp, rfl⟩)
  exact (witness_sound hτ).2 σ hστ

/-- The search finds an instance if there is one. -/
theorem unify?_complete (hb : t.Bound θ) (hi : t.Instance θ premises conclusion) :
    (t.unify? premises conclusion).isSome := by
  obtain ⟨μ, hm, hθμ⟩ := match_least hb.conclusion
  rw [hi.conclusion_eq] at hm
  have hbind : ∀ p q, (p, q) ∈ t.premises.zip premises → θ.Binds p.pattern := fun p q h =>
    hb.premise p (List.of_mem_zip h).1
  obtain ⟨ρ, subproofs, hfix, hθρ, hsub⟩ := fixPremises_complete hθμ hbind hi.fits
  have hcommon : (commonWitness ρ (subproofs.map fun e => witnesses ρ e.1 e.2)).isSome := by
    refine commonWitness_complete hθρ fun choice hc => ?_
    obtain ⟨⟨p, lines⟩, hp, rfl⟩ := List.mem_map.mp hc
    exact witness_complete hθρ (hsub p lines hp).1 (hsub p lines hp).2
  simpa [unify?, hm, hfix, Except.toOption] using hcommon

theorem padded?_eq_some {padded : List Premise} (h : t.padded? premises = some padded) :
    padded.length = t.arity ∧ ∀ q ∈ padded, q ∈ premises := by
  unfold padded? at h
  split at h
  next hlen =>
    cases h
    exact ⟨hlen, fun _ hq => hq⟩
  next =>
    split at h
    next hrep =>
      obtain ⟨last, hlast, rfl⟩ := Option.map_eq_some_iff.mp h
      simp only [Bool.and_eq_true, decide_eq_true_eq] at hrep
      refine ⟨by rw [List.length_append, List.length_replicate]; omega, fun q hq => ?_⟩
      rcases List.mem_append.mp hq with hq | hq
      · exact hq
      · rw [(List.mem_replicate.mp hq).2]
        exact List.mem_of_getLast? hlast
    next => cases h

theorem apply_eq_ok_iff : t.apply premises conclusion = .ok σ ↔
    ∃ padded, t.padded? premises = some padded ∧ t.unify? padded conclusion = some σ := by
  unfold apply
  cases hp : t.padded? premises with
  | none => simp
  | some padded => cases hu : t.unify? padded conclusion <;> simp [hu]

end Template

namespace Library

theorem toOption_eq_some_iff {ε α : Type} {r : Except ε α} {a : α} : r.toOption = some a ↔ r = .ok a := by
  cases r <;> simp [Except.toOption]

/-- The first template that applies decides, whatever is the error otherwise. -/
theorem firstFit_eq_ok_iff {premises : List Premise} {conclusion : Sentence} {σ : Substitution} {ts : List Template}
    {otherwise : MatchError} : firstFit premises conclusion ts otherwise = .ok σ ↔
      ts.findSome? (fun t => (t.apply premises conclusion).toOption) = some σ := by
  fun_induction firstFit premises conclusion ts otherwise with
  | case1 => simp
  | case2 t rest _ τ ha => simp [ha, Except.toOption]
  | case3 t rest _ ha ih =>
    rw [ih, List.findSome?_cons, ha]
    rfl
  | case4 t rest _ e _ ha ih =>
    rw [ih, List.findSome?_cons, ha]
    rfl

theorem firstFit_eq_ok {premises : List Premise} {conclusion : Sentence} {σ : Substitution} {ts : List Template}
    {otherwise : MatchError} (h : firstFit premises conclusion ts otherwise = .ok σ) :
    ∃ t ∈ ts, t.apply premises conclusion = .ok σ := by
  obtain ⟨t, ht, hσ⟩ := List.exists_of_findSome?_eq_some (firstFit_eq_ok_iff.mp h)
  exact ⟨t, ht, toOption_eq_some_iff.mp hσ⟩

/-- A rule justifies a step exactly if one of its templates does. -/
theorem apply_isOk_iff {l : Library} {name : String} {premises : List Premise} {conclusion : Sentence} :
    (∃ σ, l.apply name premises conclusion = .ok σ) ↔
      ∃ t ∈ l.get name, ∃ σ, t.apply premises conclusion = .ok σ := by
  simp only [apply, firstFit_eq_ok_iff, ← Option.isSome_iff_exists, List.findSome?_isSome_iff]
  simp only [Option.isSome_iff_exists, toOption_eq_some_iff]

theorem mem_templates_of_mem_get {l : Library} {name : String} {t : Template} (h : t ∈ l.get name) :
    t ∈ l.templates := by
  refine List.mem_flatMap.mpr ⟨name, ?_, h⟩
  unfold get at h
  cases hl : l.groups.lookup name with
  | none => rw [hl] at h; cases h
  | some ts =>
    obtain ⟨l₁, l₂, heq, -⟩ := List.lookup_eq_some_iff.mp hl
    simp [names, heq]

/-! ### The templates of a name -/

theorem get_add (l : Library) (t : Template) (name : String) :
    (l.add t).get name = if t.name = name then l.get name ++ [t] else l.get name := by
  have key : ∀ groups : List (String × List Template), ((addTo t groups).lookup name).getD [] =
      if t.name = name then (groups.lookup name).getD [] ++ [t] else (groups.lookup name).getD [] := by
    intro groups
    induction groups with
    | nil =>
      by_cases h : name = t.name
      · simp [addTo, h]
      · simp [addTo, List.lookup_cons, beq_eq_false_iff_ne.mpr h, Ne.symm h]
    | cons g rest ih =>
      obtain ⟨n, ts⟩ := g
      unfold addTo
      by_cases hn : n = t.name
      · subst hn
        by_cases h : name = t.name
        · simp [h]
        · simp [List.lookup_cons, beq_eq_false_iff_ne.mpr h, Ne.symm h]
      · rw [if_neg hn]
        by_cases h : name = n
        · subst h
          simp [Ne.symm hn]
        · simp only [List.lookup_cons, beq_eq_false_iff_ne.mpr h]
          exact ih
  exact key l.groups

theorem get_addAll (l : Library) (ts : List Template) (name : String) :
    (l.addAll ts).get name = l.get name ++ ts.filter fun t => t.name = name := by
  induction ts generalizing l with
  | nil => simp [addAll]
  | cons t rest ih =>
    have hstep : l.addAll (t :: rest) = (l.add t).addAll rest := rfl
    rw [hstep, ih, get_add]
    by_cases h : t.name = name
    · simp [h]
    · simp [h]

/-- The rule of a name consists of the templates with that name. -/
theorem get_ofTemplates (ts : List Template) (name : String) :
    (ofTemplates ts).get name = ts.filter fun t => t.name = name := by
  rw [ofTemplates, get_addAll]
  rfl

theorem mem_get_ofTemplates {ts : List Template} {name : String} {t : Template} :
    t ∈ (ofTemplates ts).get name ↔ t ∈ ts ∧ t.name = name := by
  rw [get_ofTemplates, List.mem_filter, decide_eq_true_eq]

end Library

end Deduction
