import Deduction.Proofs.Instances

/-!
# Matchers

A pattern and a sentence are compared position by position, where a position is the way from the root of a tree to one
of its parts.  Instantiation leaves a pattern as it is down to its variables (`Sentence.part?_instantiate`), so two
positions show that no substitution turns the pattern into the sentence: one where the roots differ, or two of one
variable that face different sentences.  The errors of matching name such positions; hence matching fails only where
there is nothing to be found.

* `MatchError.Holds`: what an error says about a pattern and a sentence.
* `holds_of_match_eq_error`: what it says is so.
* `exists_match_of_instantiate`: where some substitution has the effect, there is a match.
* `match_eq_ok_iff`: a match is the only substitution for the variables of the pattern that has the effect.
-/

namespace Deduction

/-! ## Positions -/

/-- One step down in the tree of a sentence. -/
inductive Turn where
  | operand
  | left
  | right
  deriving Repr, DecidableEq

/-- What stands at the root of the tree of a sentence. -/
inductive Root where
  | letter (name : Char)
  | schema (name : Char)
  | negation
  | connective (op : Connective)
  deriving Repr, DecidableEq

namespace Sentence

/-- What stands at the root. -/
def root : Sentence → Root
  | .atom name => .letter name
  | .var name => .schema name
  | .not _ => .negation
  | .binary op _ _ => .connective op

/-- The part at a position, if there is such a position. -/
def part? : Sentence → List Turn → Option Sentence
  | s, [] => some s
  | .not operand, .operand :: path => operand.part? path
  | .binary _ lhs _, .left :: path => lhs.part? path
  | .binary _ _ rhs, .right :: path => rhs.part? path
  | _, _ :: _ => none

/-- Some position of both sentences has `q` in the one and `u` in the other. -/
def Faces (p s q u : Sentence) : Prop := ∃ path, p.part? path = some q ∧ s.part? path = some u

variable {p p' s s' q u : Sentence} {op op' : Connective} {x : Char} {σ : Substitution} {path : List Turn}

@[simp] theorem part?_nil (s : Sentence) : s.part? [] = some s := by cases s <;> rfl

theorem faces_root (p s : Sentence) : p.Faces s p s := ⟨[], part?_nil p, part?_nil s⟩

theorem Faces.operand (h : p.Faces s q u) : p.not.Faces s.not q u := by
  obtain ⟨path, hp, hs⟩ := h
  exact ⟨.operand :: path, hp, hs⟩

theorem Faces.left (h : p.Faces s q u) : (binary op p p').Faces (binary op' s s') q u := by
  obtain ⟨path, hp, hs⟩ := h
  exact ⟨.left :: path, hp, hs⟩

theorem Faces.right (h : p'.Faces s' q u) : (binary op p p').Faces (binary op' s s') q u := by
  obtain ⟨path, hp, hs⟩ := h
  exact ⟨.right :: path, hp, hs⟩

theorem exists_part?_of_mem_variables (h : x ∈ p.variables) : ∃ path, p.part? path = some (.var x) := by
  induction p with
  | atom name => cases h
  | var name =>
    obtain rfl := List.mem_singleton.mp h
    exact ⟨[], rfl⟩
  | not operand ih =>
    obtain ⟨path, hpath⟩ := ih h
    exact ⟨.operand :: path, hpath⟩
  | binary op lhs rhs ihl ihr =>
    rcases List.mem_append.mp h with h | h
    · obtain ⟨path, hpath⟩ := ihl h
      exact ⟨.left :: path, hpath⟩
    · obtain ⟨path, hpath⟩ := ihr h
      exact ⟨.right :: path, hpath⟩

/-- The parts of a pattern are instantiated where they stand. -/
theorem part?_instantiate (h : p.part? path = some q) : (p.instantiate σ).part? path = some (q.instantiate σ) := by
  fun_induction part? p path with
  | case1 s =>
    cases h
    exact part?_nil _
  | case2 operand path ih => exact ih h
  | case3 op lhs rhs path ih => exact ih h
  | case4 op lhs rhs path ih => exact ih h
  | case5 => cases h

theorem Faces.eq_instantiate (h : p.Faces (p.instantiate σ) q u) : u = q.instantiate σ := by
  obtain ⟨path, hp, hs⟩ := h
  rw [part?_instantiate hp] at hs
  exact (Option.some.inj hs).symm

/-- Only at a variable can instantiation change the root. -/
theorem root_instantiate (hq : ∀ x, q ≠ .var x) : (q.instantiate σ).root = q.root := by
  cases q with
  | var x => exact absurd rfl (hq x)
  | atom name => rfl
  | not operand => rfl
  | binary op lhs rhs => rfl

end Sentence

/-! ## What the errors say -/

/-- What an error of matching says about the pattern and the sentence: a variable faces two different sentences, or a
letter, a negation or a connective faces something else. -/
def MatchError.Holds (pattern sentence : Sentence) : MatchError → Prop
  | .variableClash => ∃ x u u', pattern.Faces sentence (.var x) u ∧ pattern.Faces sentence (.var x) u' ∧ u ≠ u'
  | .connectiveClash => ∃ q u, pattern.Faces sentence q u ∧ (∀ x, q ≠ .var x) ∧ q.root ≠ u.root
  | .wrongPremiseCount => False
  | .doesNotFit => False

section Errors

variable {p p' s s' q u : Sentence} {σ τ θ : Substitution} {x : Char} {e : MatchError}

/-- An error about parts that face each other holds of the whole as well. -/
theorem MatchError.Holds.mono (h : e.Holds p s) (hf : ∀ q u, p.Faces s q u → p'.Faces s' q u) : e.Holds p' s' := by
  cases e with
  | variableClash =>
    obtain ⟨x, u, u', hu, hu', hne⟩ := h
    exact ⟨x, u, u', hf _ _ hu, hf _ _ hu', hne⟩
  | connectiveClash =>
    obtain ⟨q, u, hu, hq, hne⟩ := h
    exact ⟨q, u, hf _ _ hu, hq, hne⟩
  | wrongPremiseCount => exact h
  | doesNotFit => exact h

theorem MatchError.not_holds_instantiate (e : MatchError) (p : Sentence) (θ : Substitution) :
    ¬ e.Holds p (p.instantiate θ) := by
  intro h
  cases e with
  | variableClash =>
    obtain ⟨x, u, u', hu, hu', hne⟩ := h
    exact hne (hu.eq_instantiate.trans hu'.eq_instantiate.symm)
  | connectiveClash =>
    obtain ⟨q, u, hu, hq, hne⟩ := h
    rw [hu.eq_instantiate, Sentence.root_instantiate hq] at hne
    exact hne rfl
  | wrongPremiseCount => exact h
  | doesNotFit => exact h

/-- Every binding of a match is read off at a position of its variable. -/
theorem faces_of_match (h : matchSentence p s = .ok σ) (hx : σ.get? x = some u) : p.Faces s (.var x) u := by
  obtain ⟨path, hpath⟩ :=
    Sentence.exists_part?_of_mem_variables ((mem_keys_match h).mp (LetterMap.mem_keys_iff.mpr ⟨u, hx⟩))
  refine ⟨path, hpath, ?_⟩
  rw [← instantiate_of_match h (.refl σ), Sentence.part?_instantiate hpath]
  simp [Sentence.instantiate, hx]

/-- Two substitutions that cannot be joined differ at some variable. -/
theorem Substitution.join_eq_error (h : σ.join τ = .error e) :
    e = .variableClash ∧ ∃ x u u', σ.get? x = some u ∧ τ.get? x = some u' ∧ u ≠ u' := by
  have herror : e = .variableClash := by
    unfold join at h
    split at h
    next => cases h
    next => exact (Except.error.inj h).symm
  refine ⟨herror, ?_⟩
  by_contra hsame
  push Not at hsame
  rw [join_eq_ok_iff.mpr ⟨hsame, rfl⟩] at h
  cases h

theorem holds_of_join_eq_error (hp : matchSentence p s = .ok σ) (hp' : matchSentence p' s' = .ok τ)
    (h : σ.join τ = .error e) (op op' : Connective) : e.Holds (.binary op p p') (.binary op' s s') := by
  obtain ⟨rfl, x, u, u', hu, hu', hne⟩ := Substitution.join_eq_error h
  exact ⟨x, u, u', (faces_of_match hp hu).left, (faces_of_match hp' hu').right, hne⟩

theorem MatchError.holds_of_root_ne (hp : ∀ x, p ≠ .var x) (hne : p.root ≠ s.root) : connectiveClash.Holds p s :=
  ⟨p, s, Sentence.faces_root p s, hp, hne⟩

/-- **What an error of matching says is so.** -/
theorem holds_of_match_eq_error (h : matchSentence p s = .error e) : e.Holds p s := by
  fun_induction matchSentence p s with
  | case1 x s => cases h
  | case2 a => cases h
  | case3 a b hab =>
    cases h
    exact MatchError.holds_of_root_ne (by simp) (by simpa [Sentence.root] using hab)
  | case4 p s ih => exact (ih h).mono fun _ _ => .operand
  | case5 pl pr op sl sr ihl ihr =>
    -- the left operands are matched first, then the right ones, and the two results are joined at the end
    cases hl : matchSentence pl sl with
    | error el =>
      rw [hl] at h
      cases h
      exact (ihl hl).mono fun _ _ => .left
    | ok σ =>
      cases hr : matchSentence pr sr with
      | error er =>
        rw [hl, hr] at h
        cases h
        exact (ihr hr).mono fun _ _ => .right
      | ok τ =>
        rw [hl, hr] at h
        exact holds_of_join_eq_error hl hr h op op
  | case6 op pl pr op' sl sr hop =>
    cases h
    exact MatchError.holds_of_root_ne (by simp) (by simpa [Sentence.root] using hop)
  | case7 p s hvar hatom hnot hbinary =>
    cases h
    refine MatchError.holds_of_root_ne hvar fun hroot => ?_
    -- equal roots are left to the cases before
    cases p <;> cases s <;> cases hroot
    case atom.atom.refl => exact hatom _ _ rfl rfl
    case var.var.refl => exact hvar _ rfl
    case not.not.refl => exact hnot _ _ rfl rfl
    case binary.binary.refl => exact hbinary _ _ _ _ _ _ rfl rfl

end Errors

/-! ## Matches -/

section Matches

variable {p s : Sentence} {σ τ θ : Substitution}

/-- Where some substitution turns the pattern into the sentence, matching finds one. -/
theorem exists_match_of_instantiate (h : p.instantiate θ = s) : ∃ σ, matchSentence p s = .ok σ := by
  cases hm : matchSentence p s with
  | ok σ => exact ⟨σ, rfl⟩
  | error e =>
    have hholds := holds_of_match_eq_error hm
    rw [← h] at hholds
    exact absurd hholds (e.not_holds_instantiate p θ)

theorem Substitution.Extends.eq_of_keys (h : θ.Extends σ) (hkeys : ∀ x ∈ θ.keys, x ∈ σ.keys) : θ = σ := by
  refine LetterMap.ext_get? fun x => ?_
  cases hx : σ.get? x with
  | some s => exact h x s hx
  | none =>
    by_contra hne
    obtain ⟨t, ht⟩ := Option.ne_none_iff_exists'.mp hne
    obtain ⟨s, hs⟩ := LetterMap.mem_keys_iff.mp (hkeys x (LetterMap.mem_keys_iff.mpr ⟨t, ht⟩))
    rw [hx] at hs
    cases hs

/-- **A match is the one substitution for the variables of the pattern that turns it into the sentence.** -/
theorem match_eq_ok_iff : matchSentence p s = .ok σ ↔ (∀ x, x ∈ σ.keys ↔ x ∈ p.variables) ∧ p.instantiate σ = s := by
  constructor
  · intro h
    exact ⟨fun x => mem_keys_match h, instantiate_of_match h (.refl σ)⟩
  · rintro ⟨hkeys, rfl⟩
    have hbinds : σ.Binds p := fun x hx =>
      Option.isSome_iff_exists.mpr (LetterMap.mem_keys_iff.mp ((hkeys x).mpr hx))
    obtain ⟨τ, hτ, hext⟩ := match_least hbinds
    have heq : σ = τ := hext.eq_of_keys fun x hx => (mem_keys_match hτ).mpr ((hkeys x).mp hx)
    rw [heq] at hτ ⊢
    exact hτ

end Matches

/-- **Matching computes the only matcher, and its errors are truthful.**  A match is the one substitution for exactly
the variables of the pattern that turns it into the sentence, which may have variables of its own; there is one as soon
as any substitution has that effect; and an error is of one of two kinds, for which the positions can be shown. -/
theorem matching_is_exact (pattern sentence : Sentence) :
    (∀ σ, matchSentence pattern sentence = .ok σ ↔
      (∀ x, x ∈ σ.keys ↔ x ∈ pattern.variables) ∧ pattern.instantiate σ = sentence) ∧
    ((∃ θ, pattern.instantiate θ = sentence) → ∃ σ, matchSentence pattern sentence = .ok σ) ∧
    ∀ e, matchSentence pattern sentence = .error e → e.Holds pattern sentence := by
  refine ⟨fun σ => match_eq_ok_iff, ?_, fun e => holds_of_match_eq_error⟩
  rintro ⟨θ, h⟩
  exact exists_match_of_instantiate h

/-- Variables are replaced at once, so they can be exchanged; one for two sentences, or a letter for a negation, cannot
be had. -/
theorem matching_is_exact_exchange :
    (∃ σ, matchSentence (.implies (.var 'A') (.var 'B')) (.implies (.var 'B') (.var 'A')) = .ok σ) ∧
    MatchError.variableClash.Holds (.implies (.var 'A') (.var 'A')) (.implies (.atom 'p') (.not (.atom 'p'))) ∧
    MatchError.connectiveClash.Holds (.implies (.var 'A') (.atom 'p')) (.implies (.atom 'p') (.not (.atom 'p'))) :=
  ⟨(matching_is_exact _ _).2.1 ⟨LetterMap.ofList [('A', .var 'B'), ('B', .var 'A')], by decide⟩,
    (matching_is_exact _ _).2.2 .variableClash (by decide), (matching_is_exact _ _).2.2 .connectiveClash (by decide)⟩

end Deduction
