import Mathlib.Data.List.Forall2

/-!
# Traversals that stop at the first error

`List.mapM` in `Except` yields the results of all elements, in order, or the error of the first element that has one.
-/

namespace Deduction

section Traversal

variable {ε α β : Type} {f : α → Except ε β} {a : α} {as : List α} {b : β} {bs : List β} {e : ε}

theorem exists_of_forall₂_of_mem {R : α → β → Prop} (h : List.Forall₂ R as bs) (hb : b ∈ bs) : ∃ a ∈ as, R a b := by
  induction h with
  | nil => exact absurd hb List.not_mem_nil
  | @cons a b' as bs hab _ ih =>
    rcases List.mem_cons.mp hb with rfl | hb
    · exact ⟨a, List.mem_cons_self, hab⟩
    · obtain ⟨a', ha', hab'⟩ := ih hb
      exact ⟨a', List.mem_cons_of_mem a ha', hab'⟩

theorem mapM_cons_of_error (ha : f a = .error e) (as : List α) : (a :: as).mapM f = .error e := by
  rw [List.mapM_cons, ha]
  rfl

theorem mapM_cons_eq_ok_iff (ha : f a = .ok b) :
    (a :: as).mapM f = .ok bs ↔ ∃ bs', as.mapM f = .ok bs' ∧ b :: bs' = bs := by
  rw [List.mapM_cons, ha]
  cases as.mapM f with
  | error e => simp [bind, Except.bind]
  | ok bs' => simp [bind, Except.bind, pure, Except.pure]

theorem mapM_cons_eq_error_iff (ha : f a = .ok b) : (a :: as).mapM f = .error e ↔ as.mapM f = .error e := by
  rw [List.mapM_cons, ha]
  cases as.mapM f with
  | error e' => simp [bind, Except.bind]
  | ok bs' => simp [bind, Except.bind, pure, Except.pure]

/-- **A traversal succeeds with the results of its elements.** -/
theorem mapM_eq_ok_iff : as.mapM f = .ok bs ↔ List.Forall₂ (fun a b => f a = .ok b) as bs := by
  induction as generalizing bs with
  | nil =>
    rw [List.mapM_nil, List.forall₂_nil_left_iff]
    show Except.ok [] = Except.ok bs ↔ bs = []
    rw [Except.ok.injEq, eq_comm]
  | cons a as ih =>
    rw [List.forall₂_cons_left_iff]
    cases ha : f a with
    | error e => simp [mapM_cons_of_error ha]
    | ok b =>
      rw [mapM_cons_eq_ok_iff ha]
      constructor
      · rintro ⟨bs', hbs, rfl⟩
        exact ⟨b, bs', rfl, ih.mp hbs, rfl⟩
      · rintro ⟨_, bs', hb, hbs, rfl⟩
        cases hb
        exact ⟨bs', ih.mpr hbs, rfl⟩

theorem mapM_eq_ok_map {g : α → β} (h : ∀ a ∈ as, f a = .ok (g a)) : as.mapM f = .ok (as.map g) := by
  rw [mapM_eq_ok_iff, List.forall₂_map_right_iff, List.forall₂_same]
  exact h

/-- **The error of a traversal is that of the first element that has one.** -/
theorem mapM_eq_error_iff : as.mapM f = .error e ↔
    ∃ front a back, as = front ++ a :: back ∧ (∀ a' ∈ front, ∃ b, f a' = .ok b) ∧ f a = .error e := by
  constructor
  · intro h
    induction as with
    | nil => cases h
    | cons a as ih =>
      cases ha : f a with
      | error e' =>
        rw [mapM_cons_of_error ha] at h
        cases h
        exact ⟨[], a, as, rfl, fun a' ha' => absurd ha' List.not_mem_nil, ha⟩
      | ok b =>
        obtain ⟨front, a', back, rfl, hfront, he⟩ := ih ((mapM_cons_eq_error_iff ha).mp h)
        exact ⟨a :: front, a', back, rfl, List.forall_mem_cons.mpr ⟨⟨b, ha⟩, hfront⟩, he⟩
  · rintro ⟨front, a, back, rfl, hfront, he⟩
    induction front with
    | nil => exact mapM_cons_of_error he back
    | cons a' front ih =>
      obtain ⟨⟨b, hb⟩, hfront⟩ := List.forall_mem_cons.mp hfront
      rw [List.cons_append, mapM_cons_eq_error_iff hb]
      exact ih hfront

theorem exists_mapM_eq_ok_iff : (∃ bs, as.mapM f = .ok bs) ↔ ∀ a ∈ as, ∃ b, f a = .ok b := by
  constructor
  · rintro ⟨bs, h⟩ a ha
    obtain ⟨b, -, hb⟩ := exists_of_forall₂_of_mem (mapM_eq_ok_iff.mp h).flip ha
    exact ⟨b, hb⟩
  · intro h
    cases hbs : as.mapM f with
    | ok bs => exact ⟨bs, rfl⟩
    | error e =>
      obtain ⟨front, a, back, rfl, -, he⟩ := mapM_eq_error_iff.mp hbs
      obtain ⟨b, hb⟩ := h a (by simp)
      rw [he] at hb
      cases hb

end Traversal

end Deduction
