import Mathlib.Algebra.Group.Nat.Defs
import Deduction.Proofs.Truth

/-!
# The interpretations in order

Each letter doubles the list of interpretations, so the place of an interpretation in the list is a binary number with
one digit for every letter, the first letter having the highest one.  A digit of zero makes its letter true.  Of a
letter that is listed twice, only the last digit counts.

* `getElem?_branch`: one letter, in terms of the places before.
* `isRow_of_getElem?`: the interpretation at a place.
* `existsUnique_getElem?`: distinct letters give every interpretation of them at one place.
* `Sentence.pairwise_letters`: the letters of a sentence are distinct and in order.
-/

namespace Deduction

/-- The interpretation that belongs to the number `i`: a letter is true where its digit is zero, the digit being that of
its last place in the list.  Letters that are not listed have no value. -/
structure IsRow (letters : List Char) (i : Nat) (m : Interpretation) : Prop where
  value : ∀ j c, letters[j]? = some c → c ∉ letters.drop (j + 1) →
    m.get? c = some !i.testBit (letters.length - 1 - j)
  other : ∀ c, c ∉ letters → m.get? c = none

/-! ## One letter -/

section Branch

theorem branch_cons (c : Char) (m : Interpretation) (is : List Interpretation) :
    branch c (m :: is) = m.insert c true :: m.insert c false :: branch c is := rfl

theorem length_branch (c : Char) (is : List Interpretation) : (branch c is).length = 2 * is.length := by
  induction is with
  | nil => rfl
  | cons m is ih =>
    rw [branch_cons, List.length_cons, List.length_cons, List.length_cons, ih]
    omega

/-- One more letter is one more digit at the end. -/
theorem getElem?_branch (c : Char) (is : List Interpretation) (i : Nat) :
    (branch c is)[i]? = is[i / 2]?.map fun m => m.insert c !i.testBit 0 := by
  induction is generalizing i with
  | nil => rfl
  | cons m is ih =>
    rw [branch_cons]
    rcases i with _ | _ | i
    · rfl
    · rfl
    · have hhalf : (i + 2) / 2 = i / 2 + 1 := by omega
      have hdigit : (i + 2).testBit 0 = i.testBit 0 := by simp
      rw [List.getElem?_cons_succ, List.getElem?_cons_succ, ih, hhalf, List.getElem?_cons_succ, hdigit]

end Branch

/-! ## All letters -/

section Rows

variable {letters : List Char} {c x : Char} {i : Nat} {m : Interpretation}

theorem length_interpretations (letters : List Char) : (interpretations letters).length = 2 ^ letters.length := by
  induction letters using List.reverseRecOn with
  | nil => rfl
  | append_singleton letters x ih =>
    rw [interpretations_concat, length_branch, ih, List.length_append, List.length_singleton, pow_succ, mul_comm]

/-- One more letter in the row of a number. -/
theorem IsRow.insert (h : IsRow letters (i / 2) m) (x : Char) : IsRow (letters ++ [x]) i (m.insert x !i.testBit 0) where
  value j c hj hlast := by
    rw [LetterMap.get?_insert, List.length_append, List.length_singleton]
    rcases Nat.lt_trichotomy j letters.length with hlt | rfl | hgt
    · -- a letter of before, whose digit has moved up by one place
      rw [List.getElem?_append_left hlt] at hj
      rw [List.drop_append_of_le_length hlt, List.mem_append, not_or, List.mem_singleton] at hlast
      have hplace : letters.length + 1 - 1 - j = (letters.length - 1 - j).succ := by omega
      rw [if_neg hlast.2, h.value j c hj hlast.1, hplace, Nat.testBit_succ]
    · rw [List.getElem?_concat_length, Option.some.injEq] at hj
      have hplace : letters.length + 1 - 1 - letters.length = 0 := by omega
      rw [if_pos hj.symm, hplace]
    · have hout : (letters ++ [x])[j]? = none := by
        rw [List.getElem?_eq_none_iff, List.length_append, List.length_singleton]
        omega
      rw [hout] at hj
      cases hj
  other c hc := by
    rw [List.mem_append, not_or, List.mem_singleton] at hc
    rw [LetterMap.get?_insert, if_neg hc.2]
    exact h.other c hc.1

/-- **The interpretation at a place is the one that belongs to it as a number.** -/
theorem isRow_of_getElem? (h : (interpretations letters)[i]? = some m) : IsRow letters i m := by
  induction letters using List.reverseRecOn generalizing i m with
  | nil =>
    have hm : m ∈ [LetterMap.empty] := List.mem_of_getElem? h
    obtain rfl := List.mem_singleton.mp hm
    exact ⟨fun j c hj => absurd hj (by simp), fun c _ => LetterMap.get?_empty c⟩
  | append_singleton letters x ih =>
    rw [interpretations_concat, getElem?_branch, Option.map_eq_some_iff] at h
    obtain ⟨m', hm', rfl⟩ := h
    exact (ih hm').insert x

/-- Distinct letters have a digit each, so an interpretation of them belongs to one number only. -/
theorem IsRow.eq_of_nodup {i' : Nat} (hletters : letters.Nodup) (h : IsRow letters i m) (h' : IsRow letters i' m)
    (hi : i < 2 ^ letters.length) (hi' : i' < 2 ^ letters.length) : i = i' := by
  refine Nat.eq_of_testBit_eq fun k => ?_
  by_cases hk : k < letters.length
  · have hj : letters.length - 1 - k < letters.length := by omega
    have hlast : letters[letters.length - 1 - k] ∉ letters.drop (letters.length - 1 - k + 1) := by
      have hdrop := hletters.sublist (List.drop_sublist (letters.length - 1 - k) letters)
      rw [List.drop_eq_getElem_cons hj] at hdrop
      exact (List.nodup_cons.mp hdrop).1
    have hvalue := h.value _ _ (List.getElem?_eq_getElem hj) hlast
    have hvalue' := h'.value _ _ (List.getElem?_eq_getElem hj) hlast
    have hplace : letters.length - 1 - (letters.length - 1 - k) = k := by omega
    rw [hvalue', hplace, Option.some.injEq, Bool.not_eq_eq_eq_not, Bool.not_not] at hvalue
    exact hvalue.symm
  · have hle : 2 ^ letters.length ≤ 2 ^ k := Nat.pow_le_pow_right (by decide) (by omega)
    rw [Nat.testBit_lt_two_pow (Nat.lt_of_lt_of_le hi hle), Nat.testBit_lt_two_pow (Nat.lt_of_lt_of_le hi' hle)]

/-- **Every interpretation of distinct letters is enumerated once.** -/
theorem existsUnique_getElem? (hletters : letters.Nodup) (hm : ∀ c, (m.get? c).isSome = true ↔ c ∈ letters) :
    ∃! i : Nat, (interpretations letters)[i]? = some m := by
  obtain ⟨m', hmem, hvalue⟩ := exists_mem_interpretations m.assignment letters
  obtain ⟨i, hi⟩ := List.mem_iff_getElem?.mp hmem
  have heq : m' = m := by
    refine LetterMap.ext_get? fun c => ?_
    by_cases hc : c ∈ letters
    · obtain ⟨b, hb⟩ := Option.isSome_iff_exists.mp ((hm c).mpr hc)
      rw [hvalue c hc, hb, Interpretation.assignment, hb, Option.getD_some]
    · rw [(isRow_of_getElem? hi).other c hc]
      exact (Option.not_isSome_iff_eq_none.mp fun h => hc ((hm c).mp h)).symm
  subst heq
  have hlt : ∀ {k : Nat}, (interpretations letters)[k]? = some m' → k < 2 ^ letters.length := by
    intro k hk
    rw [← length_interpretations]
    exact (List.getElem?_eq_some_iff.mp hk).1
  exact ⟨i, hi, fun k hk => (isRow_of_getElem? hk).eq_of_nodup hletters (isRow_of_getElem? hi) (hlt hk) (hlt hi)⟩

end Rows

/-! ## The letters of a sentence -/

section Letters

variable {c : Char} {letters : List Char}

theorem pairwise_insertLetter (h : letters.Pairwise (· < ·)) (c : Char) :
    (insertLetter c letters).Pairwise (· < ·) := by
  induction letters with
  | nil => exact List.pairwise_singleton _ c
  | cons x letters ih =>
    rw [List.pairwise_cons] at h
    unfold insertLetter
    split
    next hlt =>
      refine List.pairwise_cons.mpr ⟨fun y hy => ?_, List.pairwise_cons.mpr h⟩
      rcases List.mem_cons.mp hy with rfl | hy
      · exact hlt
      · exact Char.lt_trans hlt (h.1 y hy)
    next hnot =>
      split
      next => exact List.pairwise_cons.mpr h
      next hne =>
        refine List.pairwise_cons.mpr ⟨fun y hy => ?_, ih h.2⟩
        rcases mem_insertLetter.mp hy with rfl | hy
        · exact Decidable.byContradiction fun hge =>
            hne (Char.le_antisymm (Char.not_lt.mp hge) (Char.not_lt.mp hnot))
        · exact h.1 y hy

theorem pairwise_sortLetters (letters : List Char) : (sortLetters letters).Pairwise (· < ·) := by
  induction letters with
  | nil => exact List.Pairwise.nil
  | cons c letters ih => exact pairwise_insertLetter ih c

theorem Sentence.pairwise_letters (s : Sentence) : s.letters.Pairwise (· < ·) := pairwise_sortLetters s.occurrences

end Letters

end Deduction
