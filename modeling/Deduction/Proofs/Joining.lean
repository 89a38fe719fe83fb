import Deduction.Proofs.Matchers

/-!
# Joining substitutions

As sets of bindings, a join is the union of both sides, and it fails exactly if that union is no substitution.  So the
laws of joining are those of the union: order and grouping do not matter, nor does joining the same bindings again.  All
failures are alike, hence the laws hold for them as well.

The bindings of the right side may be gone through in any order, stopping at the first that the left side contradicts.
An order that has every binding once gives the join, whichever it is.

* `Substitution.join_eq_ok_iff_get?`: the bindings of a join.
* `Substitution.joinAlong_eq_join`: going through the bindings in any order.
* `join_is_partial_union`: the laws of joining.
-/

namespace Deduction

namespace Substitution

/-- Both substitutions give the same sentence wherever both bind a variable. -/
def Agree (σ τ : Substitution) : Prop := ∀ x s t, σ.get? x = some s → τ.get? x = some t → s = t

variable {σ τ ρ θ : Substitution} {e : MatchError}

/-! ## The bindings of a join -/

section Bindings

/-- **The bindings of a join are those of both sides.** -/
theorem join_eq_ok_iff_get? :
    σ.join τ = .ok ρ ↔ ∀ x s, ρ.get? x = some s ↔ σ.get? x = some s ∨ τ.get? x = some s := by
  have hjoin : ∀ {ρ}, σ.join τ = .ok ρ → ∀ x s, ρ.get? x = some s ↔ σ.get? x = some s ∨ τ.get? x = some s := by
    intro ρ h x s
    obtain ⟨hσ, hτ⟩ := join_extends h
    constructor
    · intro hs
      obtain ⟨-, rfl⟩ := join_eq_ok_iff.mp h
      rw [LetterMap.get?_union] at hs
      exact (Option.or_eq_some_iff.mp hs).imp_right And.right
    · rintro (hs | hs)
      · exact hσ x s hs
      · exact hτ x s hs
  constructor
  · exact hjoin
  · intro h
    -- there is a join below `ρ`, and it has the same bindings
    obtain ⟨ρ', hρ', -⟩ := join_least (fun x s hs => (h x s).mpr (Or.inl hs)) fun x s hs => (h x s).mpr (Or.inr hs)
    have heq : ρ' = ρ := by
      refine LetterMap.ext_get? fun x => Option.ext fun s => ?_
      rw [hjoin hρ' x s, h x s]
    rw [hρ', heq]

theorem exists_join_iff : (∃ ρ, σ.join τ = .ok ρ) ↔ σ.Agree τ := by
  constructor
  · rintro ⟨ρ, h⟩
    exact (join_eq_ok_iff.mp h).1
  · intro h
    exact ⟨σ.union τ, join_eq_ok_iff.mpr ⟨h, rfl⟩⟩

/-- The bindings after two joins. -/
theorem bind_join_eq_ok_iff : (σ.join τ >>= fun μ => μ.join ρ) = .ok θ ↔
    ∀ x s, θ.get? x = some s ↔ (σ.get? x = some s ∨ τ.get? x = some s) ∨ ρ.get? x = some s := by
  rw [Proof.bind_eq_ok_iff]
  constructor
  · rintro ⟨μ, hμ, hθ⟩ x s
    rw [join_eq_ok_iff_get?.mp hθ x s, join_eq_ok_iff_get?.mp hμ x s]
  · intro h
    obtain ⟨μ, hμ, -⟩ := join_least (fun x s hs => (h x s).mpr (Or.inl (Or.inl hs)))
      fun x s hs => (h x s).mpr (Or.inl (Or.inr hs))
    refine ⟨μ, hμ, join_eq_ok_iff_get?.mpr fun x s => ?_⟩
    rw [h x s, join_eq_ok_iff_get?.mp hμ x s]

end Bindings

/-! ## Laws -/

section Laws

theorem bind_join_eq_error (h : (σ.join τ >>= fun μ => μ.join ρ) = .error e) : e = .variableClash := by
  cases hμ : σ.join τ with
  | error e' =>
    rw [hμ] at h
    cases h
    exact (join_eq_error hμ).1
  | ok μ =>
    rw [hμ] at h
    exact (join_eq_error h).1

/-- Results that can fail in one way only are the same if they succeed alike. -/
theorem eq_of_ok_iff {a b : Except MatchError Substitution} (ha : ∀ e, a = .error e → e = .variableClash)
    (hb : ∀ e, b = .error e → e = .variableClash) (h : ∀ ρ, a = .ok ρ ↔ b = .ok ρ) : a = b := by
  cases a with
  | ok ρ => exact ((h ρ).mp rfl).symm
  | error e =>
    cases b with
    | ok ρ => exact (h ρ).mpr rfl
    | error e' => rw [ha e rfl, hb e' rfl]

theorem join_comm (σ τ : Substitution) : σ.join τ = τ.join σ := by
  refine eq_of_ok_iff (fun e h => (join_eq_error h).1) (fun e h => (join_eq_error h).1) fun ρ => ?_
  simp only [join_eq_ok_iff_get?, or_comm]

theorem join_assoc (σ τ ρ : Substitution) : (σ.join τ >>= fun μ => μ.join ρ) = (τ.join ρ >>= fun μ => σ.join μ) := by
  have hcomm : (τ.join ρ >>= fun μ => σ.join μ) = (τ.join ρ >>= fun μ => μ.join σ) := by simp only [join_comm σ]
  rw [hcomm]
  refine eq_of_ok_iff (fun e => bind_join_eq_error) (fun e => bind_join_eq_error) fun θ => ?_
  simp only [bind_join_eq_ok_iff, or_assoc, or_comm]

theorem join_self (σ : Substitution) : σ.join σ = .ok σ := by
  rw [join_eq_ok_iff_get?]
  intro x s
  rw [or_self]

theorem join_empty (σ : Substitution) : σ.join LetterMap.empty = .ok σ := by
  rw [join_eq_ok_iff_get?]
  intro x s
  simp

end Laws

/-! ## Going through the bindings in any order -/

section Order

/-- Adds bindings to `joined` one after the other, where `σ` has none for the variable.  The first binding that `σ`
contradicts ends it. -/
def joinAlong (σ : Substitution) : List (Char × Sentence) → Substitution → Except MatchError Substitution
  | [], joined => .ok joined
  | (x, s) :: rest, joined =>
    match σ.get? x with
    | none => joinAlong σ rest (joined.insert x s)
    | some bound => if bound = s then joinAlong σ rest joined else .error .variableClash

variable {order : List (Char × Sentence)} {joined : Substitution}

/-- Without a contradiction all bindings are added, if `joined` still has for their variables what `σ` has. -/
theorem joinAlong_eq_ok (hkeys : (order.map Prod.fst).Nodup) (hsame : ∀ b ∈ order, joined.get? b.1 = σ.get? b.1)
    (hallow : ∀ b ∈ order, ∀ s, σ.get? b.1 = some s → s = b.2) :
    ∃ ρ, σ.joinAlong order joined = .ok ρ ∧ ∀ x s, ρ.get? x = some s ↔ joined.get? x = some s ∨ (x, s) ∈ order := by
  induction order generalizing joined with
  | nil => exact ⟨joined, rfl, by simp⟩
  | cons b rest ih =>
    obtain ⟨y, t⟩ := b
    rw [List.map_cons, List.nodup_cons] at hkeys
    obtain ⟨hy, hkeys⟩ := hkeys
    have hyjoined : joined.get? y = σ.get? y := hsame (y, t) List.mem_cons_self
    have hrest : ∀ b ∈ rest, joined.get? b.1 = σ.get? b.1 := fun b hb => hsame b (List.mem_cons_of_mem _ hb)
    have hallow' : ∀ b ∈ rest, ∀ s, σ.get? b.1 = some s → s = b.2 := fun b hb => hallow b (List.mem_cons_of_mem _ hb)
    cases hbound : σ.get? y with
    | none =>
      -- the variable is new, and none of the bindings still to come is for it
      have hrest' : ∀ b ∈ rest, (joined.insert y t).get? b.1 = σ.get? b.1 := by
        intro b hb
        have hne : b.1 ≠ y := by
          rintro rfl
          exact hy (List.mem_map.mpr ⟨b, hb, rfl⟩)
        rw [LetterMap.get?_insert, if_neg hne]
        exact hrest b hb
      obtain ⟨ρ, hρ, hget⟩ := ih hkeys hrest' hallow'
      refine ⟨ρ, by simp only [joinAlong, hbound, hρ], fun x s => ?_⟩
      rw [hget x s, LetterMap.get?_insert, List.mem_cons, Prod.mk.injEq, ← or_assoc]
      by_cases hx : x = y
      · subst hx
        simp [hyjoined, hbound, eq_comm]
      · simp [hx]
    | some bound =>
      obtain rfl : bound = t := hallow (y, t) List.mem_cons_self bound hbound
      obtain ⟨ρ, hρ, hget⟩ := ih hkeys hrest hallow'
      refine ⟨ρ, by simp only [joinAlong, hbound, if_true, hρ], fun x s => ?_⟩
      have hold : x = y ∧ s = bound → joined.get? x = some s := by
        rintro ⟨rfl, rfl⟩
        rw [hyjoined, hbound]
      rw [hget x s, List.mem_cons, Prod.mk.injEq, ← or_assoc, or_iff_left_of_imp hold]

theorem joinAlong_eq_error {b : Char × Sentence} (hb : b ∈ order) {s : Sentence} (hs : σ.get? b.1 = some s)
    (hne : s ≠ b.2) : σ.joinAlong order joined = .error .variableClash := by
  induction order generalizing joined with
  | nil => exact absurd hb List.not_mem_nil
  | cons c rest ih =>
    obtain ⟨y, t⟩ := c
    rcases List.mem_cons.mp hb with rfl | hb
    · simp only [joinAlong, hs, if_neg hne]
    · cases hbound : σ.get? y with
      | none => simp only [joinAlong, hbound, ih hb]
      | some bound =>
        simp only [joinAlong, hbound, ih hb, ite_self]

/-- **The order in which the bindings are gone through does not matter.** -/
theorem joinAlong_eq_join (h : order.Perm τ.entries) : σ.joinAlong order σ = σ.join τ := by
  have hmem : ∀ x s, (x, s) ∈ order ↔ τ.get? x = some s := by
    intro x s
    rw [h.mem_iff, LetterMap.mem_entries_iff]
  have hkeys : (order.map Prod.fst).Nodup := by
    rw [(h.map Prod.fst).nodup_iff]
    exact τ.increasing.imp Char.ne_of_lt
  by_cases hagree : σ.Agree τ
  · obtain ⟨ρ, hρ, hget⟩ := joinAlong_eq_ok hkeys (fun b _ => rfl)
      fun b hb s hs => hagree b.1 s b.2 hs ((hmem b.1 b.2).mp hb)
    rw [hρ, eq_comm, join_eq_ok_iff_get?]
    intro x s
    rw [hget x s, hmem x s]
  · have hagree' := hagree
    simp only [Agree, not_forall] at hagree'
    obtain ⟨x, s, t, hs, ht, hne⟩ := hagree'
    rw [joinAlong_eq_error ((hmem x t).mpr ht) hs hne]
    cases hj : σ.join τ with
    | ok ρ => exact absurd (exists_join_iff.mp ⟨ρ, hj⟩) hagree
    | error e => rw [(join_eq_error hj).1]

end Order

end Substitution

/-- **Joining is a partial union of substitutions.**  It succeeds exactly if both sides agree, and then has the bindings
of either; otherwise it fails in one way.  Both sides may be exchanged and several joins grouped differently, with the
same failures; joining a substitution with itself or with the empty one changes nothing.  The bindings of the right side
may be gone through in any order. -/
theorem join_is_partial_union :
    (∀ σ τ : Substitution, (∃ ρ, σ.join τ = .ok ρ) ↔ σ.Agree τ) ∧
    (∀ σ τ ρ : Substitution, σ.join τ = .ok ρ → ∀ x s, ρ.get? x = some s ↔ σ.get? x = some s ∨ τ.get? x = some s) ∧
    (∀ (σ τ : Substitution) (e : MatchError), σ.join τ = .error e → e = .variableClash) ∧
    (∀ σ τ : Substitution, σ.join τ = τ.join σ) ∧
    (∀ σ τ ρ : Substitution, (σ.join τ >>= fun μ => μ.join ρ) = (τ.join ρ >>= fun μ => σ.join μ)) ∧
    (∀ (σ τ ρ : Substitution) (e : MatchError), (σ.join τ >>= fun μ => μ.join ρ) = .error e → e = .variableClash) ∧
    (∀ σ : Substitution, σ.join σ = .ok σ) ∧
    (∀ σ : Substitution, σ.join LetterMap.empty = .ok σ ∧ Substitution.join LetterMap.empty σ = .ok σ) ∧
    ∀ (σ τ : Substitution) (order : List (Char × Sentence)), order.Perm τ.entries →
      σ.joinAlong order σ = σ.join τ := by
  refine ⟨fun σ τ => Substitution.exists_join_iff, fun σ τ ρ => Substitution.join_eq_ok_iff_get?.mp,
    fun σ τ e h => (Substitution.join_eq_error h).1, Substitution.join_comm, Substitution.join_assoc,
    fun σ τ ρ e => Substitution.bind_join_eq_error, Substitution.join_self, fun σ => ⟨σ.join_empty, ?_⟩,
    fun σ τ order => Substitution.joinAlong_eq_join⟩
  rw [Substitution.join_comm]
  exact σ.join_empty

/-- Two substitutions that overlap, also gone through backwards, and a third one that clashes with their join. -/
theorem join_is_partial_union_overlap :
    let σ : Substitution := LetterMap.ofList [('A', .atom 'p'), ('B', .atom 'q')]
    let τ : Substitution := LetterMap.ofList [('B', .atom 'q'), ('C', .not (.atom 'p'))]
    let clashing : Substitution := LetterMap.single 'C' (.atom 'p')
    (∃ ρ, σ.join τ = .ok ρ ∧ σ.joinAlong τ.entries.reverse σ = .ok ρ ∧ ρ.get? 'C' = some (.not (.atom 'p'))) ∧
    (∃ e, τ.join clashing = .error e ∧ e = .variableClash) ∧
    ∃ e, (σ.join τ >>= fun μ => μ.join clashing) = .error e ∧ e = .variableClash := by
  intro σ τ clashing
  obtain ⟨-, hget, herror, -, -, herror', -, -, horder⟩ := join_is_partial_union
  let ρ : Substitution := LetterMap.ofList [('A', .atom 'p'), ('B', .atom 'q'), ('C', .not (.atom 'p'))]
  have hjoin : σ.join τ = .ok ρ := by decide
  have hbackwards : σ.joinAlong τ.entries.reverse σ = .ok ρ := by
    rw [horder σ τ _ (List.reverse_perm _), hjoin]
  have hclash : τ.join clashing = .error .variableClash := by decide
  have hclash' : (σ.join τ >>= fun μ => μ.join clashing) = .error .variableClash := by decide
  refine ⟨⟨ρ, hjoin, hbackwards, ?_⟩, ⟨_, hclash, herror τ clashing _ hclash⟩,
    ⟨_, hclash', herror' σ τ clashing _ hclash'⟩⟩
  exact (hget σ τ ρ hjoin 'C' _).mpr (Or.inr rfl)

end Deduction
