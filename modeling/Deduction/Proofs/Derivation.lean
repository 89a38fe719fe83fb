import Mathlib.Tactic.Common
import Deduction.Rule.Builtin
import Deduction.Proofs.Matching
import Deduction.Proofs.Truth

/-!
# Derivations with the built-in rules

Derivations as trees, with the assumptions in a list beside them: rules over single sentences, and the implication from
an assumption to what is derived under it.  Every entailment has a derivation.  Under the literals that an assignment
makes true, every sentence or its negation can be derived; the literals of a letter go away by a case distinction.

* `Derives.signed_of_literals`: what an assignment says about a sentence can be derived from its literals.
* `derives_of_forall_literals`: the literals can be discharged.
* `derives_of_entails`: every entailment has a derivation.
-/

namespace Deduction

/-! ## Applying a built-in template -/

namespace Builtin

/-- The substitution of three sentences for the schema variables of the built-in templates. -/
def assign (a b c : Sentence) : Substitution := ((LetterMap.empty.insert 'A' a).insert 'B' b).insert 'C' c

section Assign

variable (a b c : Sentence)

@[simp] theorem get?_assign_A : (assign a b c).get? 'A' = some a := by
  simp [assign, LetterMap.get?_insert]

@[simp] theorem get?_assign_B : (assign a b c).get? 'B' = some b := by
  simp [assign, LetterMap.get?_insert]

@[simp] theorem get?_assign_C : (assign a b c).get? 'C' = some c := by
  simp [assign, LetterMap.get?_insert]

theorem bound_assign {t : Template} (ht : t ∈ templates) : t.Bound (assign a b c) := by
  have hvars : ∀ t ∈ templates, t.conclusion.variables ⊆ ['A', 'B', 'C'] ∧
      ∀ p ∈ t.premises, p.pattern.variables ⊆ ['A', 'B', 'C'] := by decide
  have hsome : ∀ x ∈ ['A', 'B', 'C'], ((assign a b c).get? x).isSome := by simp
  exact ⟨fun x hx => hsome x ((hvars t ht).1 hx), fun p hp x hx => hsome x ((hvars t ht).2 p hp hx)⟩

end Assign

section Apply

variable {t : Template} {premises : List Premise} {conclusion a b : Sentence}

theorem apply_of_instance (ht : t ∈ templates) {θ : Substitution} (hb : t.Bound θ)
    (hi : t.Instance θ premises conclusion) (hlen : premises.length = t.arity) :
    ∃ σ, Library.builtin.apply t.name premises conclusion = .ok σ := by
  obtain ⟨σ, hσ⟩ := Option.isSome_iff_exists.mp (Template.unify?_complete hb hi)
  have hpad : t.padded? premises = some premises := by simp [Template.padded?, hlen]
  have hget : t ∈ Library.builtin.get t.name := Library.mem_get_ofTemplates.mpr ⟨ht, rfl⟩
  exact Library.apply_isOk_iff.mpr ⟨t, hget, σ, Template.apply_eq_ok_iff.mpr ⟨premises, hpad, hσ⟩⟩

theorem apply_object {name : String} {patterns : List Sentence} {pattern : Sentence}
    (ht : object name patterns pattern ∈ templates) (θ : Substitution) (hb : (object name patterns pattern).Bound θ) :
    ∃ σ, Library.builtin.apply name ((patterns.map (·.instantiate θ)).map .sentence) (pattern.instantiate θ)
      = .ok σ := by
  refine apply_of_instance ht hb ⟨rfl, fun p q hpq => ?_⟩ (by simp [Template.arity, object])
  rw [List.map_map, object, List.zip_map'] at hpq
  obtain ⟨s, -, heq⟩ := List.mem_map.mp hpq
  cases heq
  exact ⟨rfl, rfl⟩

/-- A sub-proof justifies the implication from its assumption to any of its lines. -/
theorem apply_implication {lines : List Sentence} (ha : a ∈ lines.head?) (hb : b ∈ lines) :
    ∃ σ, Library.builtin.apply "+I" [.subproof lines] (a.implies b) = .ok σ := by
  have ht : overSubproofs "+I" [Builtin.a.implies Builtin.b] (Builtin.a.implies Builtin.b) ∈ templates := by decide
  refine apply_of_instance ht (bound_assign a b b ht) ⟨by simp [overSubproofs, Sentence.instantiate], ?_⟩ rfl
  intro p q hpq
  obtain ⟨rfl, rfl⟩ : p = ⟨.metaLevel, Builtin.a.implies Builtin.b⟩ ∧ q = .subproof lines := by
    simpa [overSubproofs] using hpq
  exact ⟨rfl, a, ha, b, hb, by simp [Sentence.instantiate]⟩

end Apply

end Builtin

/-! ## Derivations -/

/-- The sentence can be derived from the sentences of `Γ` with the built-in rules. -/
inductive Derives : List Sentence → Sentence → Prop where
  | hypothesis {Γ : List Sentence} {a : Sentence} (h : a ∈ Γ) : Derives Γ a
  | rule {Γ : List Sentence} {a : Sentence} (name : String) (premises : List Sentence)
      (happly : ∃ σ, Library.builtin.apply name (premises.map .sentence) a = .ok σ)
      (h : ∀ p ∈ premises, Derives Γ p) : Derives Γ a
  | implication {Γ : List Sentence} {a b : Sentence} (h : Derives (a :: Γ) b) : Derives Γ (a.implies b)

namespace Derives

variable {Γ Δ : List Sentence} {a b c : Sentence}

theorem weaken (h : Derives Γ a) (hsub : Γ ⊆ Δ) : Derives Δ a := by
  induction h generalizing Δ with
  | hypothesis h => exact .hypothesis (hsub h)
  | rule name premises happly _ ih => exact .rule name premises happly fun p hp => ih p hp hsub
  | implication _ ih => exact .implication (ih (List.cons_subset_cons _ hsub))

theorem cons (h : Derives Γ a) : Derives (b :: Γ) a := h.weaken (List.subset_cons_self b Γ)

theorem self : Derives (a :: Γ) a := .hypothesis List.mem_cons_self

/-- The rule of a template over single sentences. -/
theorem of_object (name : String) (patterns : List Sentence) (pattern : Sentence)
    (ht : Builtin.object name patterns pattern ∈ Builtin.templates) (a b c : Sentence)
    (h : ∀ p ∈ patterns, Derives Γ (p.instantiate (Builtin.assign a b c))) :
    Derives Γ (pattern.instantiate (Builtin.assign a b c)) := by
  refine .rule name _ (Builtin.apply_object ht _ (Builtin.bound_assign a b c ht)) fun p hp => ?_
  obtain ⟨q, hq, rfl⟩ := List.mem_map.mp hp
  exact h q hq

/-! ### The rules -/

theorem identity : Derives Γ (a.implies a) := .implication self

theorem and_intro (ha : Derives Γ a) (hb : Derives Γ b) : Derives Γ (.binary .and a b) :=
  of_object "+K" [Builtin.a, Builtin.b] (.binary .and Builtin.a Builtin.b) (by decide) a b a
    (by simp [Sentence.instantiate, ha, hb])

theorem and_left (h : Derives Γ (.binary .and a b)) : Derives Γ a :=
  of_object "-K" [.binary .and Builtin.a Builtin.b] Builtin.a (by decide) a b a (by simp [Sentence.instantiate, h])

theorem and_right (h : Derives Γ (.binary .and a b)) : Derives Γ b :=
  of_object "-K" [.binary .and Builtin.a Builtin.b] Builtin.b (by decide) a b a (by simp [Sentence.instantiate, h])

theorem or_left (h : Derives Γ a) : Derives Γ (.binary .or a b) :=
  of_object "+A" [Builtin.a] (.binary .or Builtin.a Builtin.b) (by decide) a b a (by simp [Sentence.instantiate, h])

theorem or_right (h : Derives Γ b) : Derives Γ (.binary .or a b) :=
  of_object "+A" [Builtin.b] (.binary .or Builtin.a Builtin.b) (by decide) a b a (by simp [Sentence.instantiate, h])

theorem or_of_cases (ht : Derives Γ (a.implies b)) (hf : Derives Γ ((Sentence.not a).implies c)) :
    Derives Γ (.binary .or b c) :=
  of_object "+A" [Builtin.a.implies Builtin.b, (Sentence.not Builtin.a).implies Builtin.c]
    (.binary .or Builtin.b Builtin.c) (by decide) a b c (by simp [Sentence.instantiate, ht, hf])

theorem or_elim (h : Derives Γ (.binary .or a b)) (ha : Derives Γ (a.implies c)) (hb : Derives Γ (b.implies c)) :
    Derives Γ c :=
  -- the order of the two implications of this template is the one that does not repeat its last premise
  of_object "-A" [.binary .or Builtin.a Builtin.b, Builtin.b.implies Builtin.c, Builtin.a.implies Builtin.c] Builtin.c
    (by decide) a b c (by simp [Sentence.instantiate, h, ha, hb])

theorem modus_ponens (h : Derives Γ (a.implies b)) (ha : Derives Γ a) : Derives Γ b :=
  of_object "-I" [Builtin.a.implies Builtin.b, Builtin.a] Builtin.b (by decide) a b a
    (by simp [Sentence.instantiate, h, ha])

theorem iff_intro (hab : Derives Γ (a.implies b)) (hba : Derives Γ (b.implies a)) :
    Derives Γ (.binary .equivalent a b) :=
  of_object "+Ä" [Builtin.a.implies Builtin.b, Builtin.b.implies Builtin.a]
    (.binary .equivalent Builtin.a Builtin.b) (by decide) a b a (by simp [Sentence.instantiate, hab, hba])

theorem iff_forward (h : Derives Γ (.binary .equivalent a b)) : Derives Γ (a.implies b) :=
  of_object "-Ä" [.binary .equivalent Builtin.a Builtin.b] (Builtin.a.implies Builtin.b) (by decide) a b a
    (by simp [Sentence.instantiate, h])

theorem iff_backward (h : Derives Γ (.binary .equivalent a b)) : Derives Γ (b.implies a) :=
  of_object "-Ä" [.binary .equivalent Builtin.a Builtin.b] (Builtin.b.implies Builtin.a) (by decide) a b a
    (by simp [Sentence.instantiate, h])

theorem not_not (h : Derives Γ a) : Derives Γ (.not (.not a)) :=
  of_object "+DN" [Builtin.a] (.not (.not Builtin.a)) (by decide) a a a (by simp [Sentence.instantiate, h])

theorem implies_of_not (h : Derives Γ (.not a)) : Derives Γ (a.implies b) :=
  of_object "EFQ" [.not Builtin.a] (Builtin.a.implies Builtin.b) (by decide) a b a (by simp [Sentence.instantiate, h])

theorem implies_of (h : Derives Γ b) : Derives Γ (a.implies b) := .implication h.cons

/-! ### Case distinction -/

/-- A case distinction gives a disjunction of identical sides. -/
theorem case_split (ht : Derives (a :: Γ) c) (hf : Derives (.not a :: Γ) c) : Derives Γ c :=
  or_elim (or_of_cases ht.implication hf.implication) identity identity

theorem absurd (h : Derives Γ a) (hn : Derives Γ (.not a)) : Derives Γ b := (implies_of_not hn).modus_ponens h

/-- Modus tollens: in the case that `a` holds, everything follows. -/
theorem not_of_implies (h : Derives (a :: Γ) b) (hn : Derives Γ (.not b)) : Derives Γ (.not a) :=
  case_split (h.absurd hn.cons) self

end Derives

/-! ## Literals -/

/-- The sentence or its negation, whichever the assignment makes true. -/
def Sentence.signed (v w : Char → Bool) (s : Sentence) : Sentence := if s.truth v w then s else .not s

/-- The literals of the given letters that the assignment makes true. -/
def literals (v w : Char → Bool) (letters : List Char) : List Sentence :=
  letters.map fun x => (Sentence.atom x).signed v w

section Literals

variable {v w : Char → Bool} {Γ : List Sentence} {letters : List Char} {a b c s : Sentence}

theorem Sentence.signed_of_true (h : s.truth v w = true) : s.signed v w = s := if_pos h

theorem Sentence.signed_of_false (h : s.truth v w = false) : s.signed v w = .not s := if_neg (by simp [h])

/-- The truth tables of the connectives, derived. -/
theorem Derives.of_table : ∀ (op : Connective) (s t : Bool), Derives Γ (if s then a else .not a) →
    Derives Γ (if t then b else .not b) → Derives Γ (if op.apply s t then .binary op a b else .not (.binary op a b))
  | .and, true, true, ha, hb => and_intro ha hb
  | .and, true, false, _, hb => not_of_implies (and_right self) hb
  | .and, false, _, ha, _ => not_of_implies (and_left self) ha
  | .or, true, _, ha, _ => or_left ha
  | .or, false, true, _, hb => or_right hb
  | .or, false, false, ha, hb => not_of_implies (or_elim self identity (implies_of_not hb.cons)) ha
  | .follows, true, true, _, hb => implies_of hb
  | .follows, true, false, ha, hb => not_of_implies (self.modus_ponens ha.cons) hb
  | .follows, false, _, ha, _ => implies_of_not ha
  | .equivalent, true, true, ha, hb => iff_intro (implies_of hb) (implies_of ha)
  | .equivalent, true, false, ha, hb => not_of_implies ((iff_forward self).modus_ponens ha.cons) hb
  | .equivalent, false, true, ha, hb => not_of_implies ((iff_backward self).modus_ponens hb.cons) ha
  | .equivalent, false, false, ha, hb => iff_intro (implies_of_not ha) (implies_of_not hb)

/-- **What an assignment says about a sentence can be derived from its literals.** -/
theorem Derives.signed_of_literals (hg : s.isGround = true) (hs : ∀ x ∈ s.occurrences, x ∈ letters) :
    Derives (literals v w letters) (s.signed v w) := by
  induction s with
  | atom x => exact .hypothesis (List.mem_map_of_mem (hs x (by simp [Sentence.occurrences])))
  | var x => simp [Sentence.isGround] at hg
  | not s ih =>
    have hd := ih hg hs
    cases ht : s.truth v w with
    | true =>
      rw [Sentence.signed_of_true ht] at hd
      rw [Sentence.signed_of_false (by simp [Sentence.truth, ht])]
      exact hd.not_not
    | false =>
      rw [Sentence.signed_of_false ht] at hd
      rw [Sentence.signed_of_true (by simp [Sentence.truth, ht])]
      exact hd
  | binary op l r ihl ihr =>
    simp only [Sentence.isGround, Bool.and_eq_true] at hg
    have hl := ihl hg.1 fun x hx => hs x (List.mem_append_left _ hx)
    have hr := ihr hg.2 fun x hx => hs x (List.mem_append_right _ hx)
    exact .of_table op _ _ hl hr

/-- **Literals can be discharged**, one letter after the other. -/
theorem derives_of_forall_literals (w : Char → Bool) (letters : List Char)
    (h : ∀ v, Derives (literals v w letters ++ Γ) c) : Derives Γ c := by
  induction letters with
  | nil => exact h fun _ => false
  | cons x rest ih =>
    refine ih fun v => ?_
    by_cases hx : x ∈ rest
    · -- the literal of a letter that comes again is there already
      refine (h v).weaken (List.cons_subset.mpr ⟨?_, List.Subset.refl _⟩)
      exact List.mem_append_left _ (List.mem_map_of_mem hx)
    · have hvalue : ∀ value : Bool, Derives ((if value then Sentence.atom x else .not (.atom x)) ::
          (literals v w rest ++ Γ)) c := by
        intro value
        have hrest : literals (Function.update v x value) w rest = literals v w rest := by
          refine List.map_congr_left fun y hy => ?_
          have hne : y ≠ x := fun heq => hx (heq ▸ hy)
          have hsame : (Sentence.atom y).truth (Function.update v x value) w = (Sentence.atom y).truth v w := by
            rw [Sentence.truth, Sentence.truth, Function.update_of_ne hne]
          rw [Sentence.signed, hsame, Sentence.signed]
        have hv := h (Function.update v x value)
        rw [literals, List.map_cons, ← literals, hrest] at hv
        simpa [Sentence.signed, Sentence.truth] using hv
      exact .case_split (hvalue true) (hvalue false)

/-- **Every entailment has a derivation.** -/
theorem derives_of_entails {premises : List Sentence} {conclusion : Sentence} (hp : ∀ p ∈ premises, p.isGround = true)
    (hc : conclusion.isGround = true) (h : entails premises conclusion = .ok true) : Derives premises conclusion := by
  let w : Char → Bool := fun _ => false
  let letters := (conclusion :: premises).flatMap Sentence.occurrences
  have hletters : ∀ s ∈ conclusion :: premises, ∀ x ∈ s.occurrences, x ∈ letters :=
    fun s hs x hx => List.mem_flatMap.mpr ⟨s, hs, hx⟩
  refine derives_of_forall_literals w letters fun v => ?_
  have hv := (entails_eq_true_iff w hp hc).mp h v
  cases ht : conclusion.truth v w with
  | true =>
    have hd : Derives (literals v w letters) (conclusion.signed v w) :=
      .signed_of_literals hc (hletters conclusion List.mem_cons_self)
    rw [Sentence.signed_of_true ht] at hd
    exact hd.weaken (List.subset_append_left _ _)
  | false =>
    obtain ⟨p, hmem, hfalse⟩ : ∃ p ∈ premises, p.truth v w = false := by
      by_contra hno
      have hall : ∀ p ∈ premises, p.truth v w = true := fun p hmem => by
        cases hpt : p.truth v w with
        | true => rfl
        | false => exact absurd ⟨p, hmem, hpt⟩ hno
      rw [hv hall] at ht
      cases ht
    have hd : Derives (literals v w letters) (p.signed v w) :=
      .signed_of_literals (hp p hmem) (hletters p (List.mem_cons_of_mem _ hmem))
    rw [Sentence.signed_of_false hfalse] at hd
    exact Derives.absurd (.hypothesis (List.mem_append_right _ hmem)) (hd.weaken (List.subset_append_left _ _))

end Literals

end Deduction
