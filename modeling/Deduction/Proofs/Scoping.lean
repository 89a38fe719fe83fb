import Mathlib.Data.List.Basic
import Deduction.Proof.Scope
import Deduction.Rule.Builtin
import Deduction.Proofs.Blocks

/-!
# Lexical scope

The assumptions open at a step are those of the sub-proofs around it.  From one step to the next they behave like a
stack: an assumption is pushed, and any other step pops down to its depth.  So depths over a stretch of steps say which
sub-proofs stay open, and what may be cited is what lexical scoping allows.

* `openAssumptions_succ_push`, `openAssumptions_succ_pop`: the stack from one step to the next.
* `deep_iff_take_eq`: the outer sub-proofs stay open over a stretch exactly if no step of it is less deep.
* `lineCitable_iff`, `rangeCitable_iff`: what may be cited, in terms of open assumptions.
* `premise?_range`: a sub-proof contributes the lines that stand directly in it.
-/

namespace Deduction

/-! ## Open assumptions -/

/-- The step at position `j` is an assumption at depth `d`. -/
def isAssumptionAt (steps : List Step) (d j : Nat) : Bool :=
  steps[j]?.any fun s => s.isAssumption && s.depth == d

/-- The position of the last assumption at depth `d` at or before position `i`. -/
def lastAssumption? (steps : List Step) (i d : Nat) : Option Nat :=
  (List.range (i + 1)).findRev? (isAssumptionAt steps d)

/-- The depth of the step at position `i`. -/
def depthAt (steps : List Step) (i : Nat) : Nat := (steps[i]?.map Step.depth).getD 0

/-- The positions of the assumptions that are open at position `i`, the outermost first: for every depth from two to
that of the step, the last assumption at this depth. -/
def openAssumptions (steps : List Step) (i : Nat) : List Nat :=
  (List.range' 2 (depthAt steps i - 1)).filterMap (lastAssumption? steps i)

/-- The sentences at the given positions. -/
def sentencesAt (steps : List Step) (positions : List Nat) : List Sentence :=
  positions.filterMap fun j => steps[j]?.map Step.sentence

/-- The positions from `first` to `last` at which the same assumptions are open as at `first`. -/
def directlyIn (steps : List Step) (first last : Nat) : List Nat :=
  (List.range' first (last + 1 - first)).filter fun j => openAssumptions steps j = openAssumptions steps first

/-! ### The last assumption -/

section LastAssumption

variable {steps : List Step} {s : Step} {i d j : Nat}

theorem depthAt_eq (hs : steps[i]? = some s) : depthAt steps i = s.depth := by
  simp [depthAt, hs]

theorem isAssumptionAt_iff (hs : steps[j]? = some s) :
    isAssumptionAt steps d j = true ↔ s.isAssumption = true ∧ s.depth = d := by
  simp [isAssumptionAt, hs]

theorem lastAssumption?_zero :
    lastAssumption? steps 0 d = if isAssumptionAt steps d 0 = true then some 0 else none := by
  simp [lastAssumption?, List.find?_cons]
  split <;> simp_all

theorem lastAssumption?_succ : lastAssumption? steps (i + 1) d =
    if isAssumptionAt steps d (i + 1) = true then some (i + 1) else lastAssumption? steps i d := by
  unfold lastAssumption?
  rw [List.range_succ, List.findRev?_eq_find?_reverse, List.findRev?_eq_find?_reverse, List.reverse_append]
  simp only [List.reverse_cons, List.reverse_nil, List.nil_append, List.cons_append, List.find?_cons]
  split
  next h => rw [if_pos h]
  next h => rw [if_neg (by simp [h])]

theorem lastAssumption?_spec (h : lastAssumption? steps i d = some j) :
    j ≤ i ∧ ∃ s, steps[j]? = some s ∧ s.isAssumption = true ∧ s.depth = d := by
  unfold lastAssumption? at h
  rw [List.findRev?_eq_find?_reverse] at h
  have hmem := List.mem_of_find?_eq_some h
  have hat := List.find?_some h
  rw [List.mem_reverse, List.mem_range] at hmem
  refine ⟨by omega, ?_⟩
  unfold isAssumptionAt at hat
  cases hs : steps[j]? with
  | none => simp [hs] at hat
  | some s => simpa [hs] using hat

end LastAssumption

/-! ## The stack of open sub-proofs -/

section Stack

variable {steps : List Step} {s t : Step} {i : Nat}

theorem Proof.Nested.head {d : Nat} (hn : Proof.Nested d steps) (hs : steps[0]? = some s) :
    if s.isAssumption then s.depth = d + 1 else 1 ≤ s.depth ∧ s.depth ≤ d := by
  cases steps with
  | nil => cases hs
  | cons u rest =>
    cases hs
    exact hn.1

theorem Proof.Nested.next {d : Nat} (hn : Proof.Nested d steps) (hs : steps[i]? = some s)
    (ht : steps[i + 1]? = some t) :
    if t.isAssumption then t.depth = s.depth + 1 else 1 ≤ t.depth ∧ t.depth ≤ s.depth := by
  induction steps generalizing d i with
  | nil => cases hs
  | cons u rest ih =>
    cases i with
    | zero =>
      cases hs
      exact hn.2.head ht
    | succ i => exact ih hn.2 hs ht

variable (hn : Proof.Nested 1 steps)
include hn

theorem Proof.Nested.one_le_depth (hs : steps[i]? = some s) : 1 ≤ s.depth := by
  cases i with
  | zero =>
    have h := hn.head hs
    split at h <;> omega
  | succ i =>
    have hi : i < steps.length := by
      have := (List.getElem?_eq_some_iff.mp hs).1
      omega
    have h := hn.next (List.getElem?_eq_getElem hi) hs
    split at h <;> omega

/-- Down to depth two there is an assumption for every depth. -/
theorem lastAssumption?_isSome (hs : steps[i]? = some s) {d : Nat} (h2 : 2 ≤ d) (hd : d ≤ s.depth) :
    ∃ j, lastAssumption? steps i d = some j := by
  induction i generalizing s with
  | zero =>
    have h := hn.head hs
    by_cases ha : s.isAssumption = true
    · rw [if_pos ha] at h
      have hat : isAssumptionAt steps d 0 = true := (isAssumptionAt_iff hs).mpr ⟨ha, by omega⟩
      exact ⟨0, by rw [lastAssumption?_zero, if_pos hat]⟩
    · rw [if_neg ha] at h
      omega
  | succ i ih =>
    have hi : i < steps.length := by
      have := (List.getElem?_eq_some_iff.mp hs).1
      omega
    have h := hn.next (List.getElem?_eq_getElem hi) hs
    rw [lastAssumption?_succ]
    by_cases hat : isAssumptionAt steps d (i + 1) = true
    · exact ⟨i + 1, if_pos hat⟩
    · rw [if_neg hat]
      refine ih (List.getElem?_eq_getElem hi) ?_
      rw [isAssumptionAt_iff hs] at hat
      by_cases ha : s.isAssumption = true
      · rw [if_pos ha] at h
        have : s.depth ≠ d := fun hsd => hat ⟨ha, hsd⟩
        omega
      · rw [if_neg ha] at h
        omega

theorem openAssumptions_eq_map (hs : steps[i]? = some s) : openAssumptions steps i =
    (List.range' 2 (s.depth - 1)).map fun d => (lastAssumption? steps i d).getD 0 := by
  unfold openAssumptions
  rw [depthAt_eq hs, ← List.filterMap_eq_map']
  refine List.filterMap_congr fun d hd => ?_
  rw [List.mem_range'_1] at hd
  obtain ⟨j, hj⟩ := lastAssumption?_isSome hn hs hd.1 (by omega)
  rw [hj]
  rfl

theorem length_openAssumptions (hs : steps[i]? = some s) : (openAssumptions steps i).length + 1 = s.depth := by
  have := hn.one_le_depth hs
  rw [openAssumptions_eq_map hn hs, List.length_map, List.length_range']
  omega

/-- At an assumption the stack grows by its position. -/
theorem openAssumptions_succ_push (hs : steps[i]? = some s) (ht : steps[i + 1]? = some t)
    (ha : t.isAssumption = true) : openAssumptions steps (i + 1) = openAssumptions steps i ++ [i + 1] := by
  have hdepth := hn.next hs ht
  have hone := hn.one_le_depth hs
  rw [if_pos ha] at hdepth
  rw [openAssumptions_eq_map hn ht, openAssumptions_eq_map hn hs,
    show t.depth - 1 = s.depth - 1 + 1 by omega, List.range'_1_concat, List.map_append, List.map_singleton]
  have htop : isAssumptionAt steps (2 + (s.depth - 1)) (i + 1) = true := (isAssumptionAt_iff ht).mpr ⟨ha, by omega⟩
  rw [lastAssumption?_succ, if_pos htop]
  congr 1
  refine List.map_congr_left fun d hd => ?_
  rw [List.mem_range'_1] at hd
  have hlow : ¬ isAssumptionAt steps d (i + 1) = true := by
    rw [isAssumptionAt_iff ht]
    omega
  rw [lastAssumption?_succ, if_neg hlow]

/-- At any other step the stack is cut down to the depth of the step. -/
theorem openAssumptions_succ_pop (hs : steps[i]? = some s) (ht : steps[i + 1]? = some t)
    (ha : ¬ t.isAssumption = true) :
    openAssumptions steps (i + 1) = (openAssumptions steps i).take (t.depth - 1) := by
  have hdepth := hn.next hs ht
  rw [if_neg ha] at hdepth
  rw [openAssumptions_eq_map hn ht, openAssumptions_eq_map hn hs, ← List.map_take,
    List.take_range'_of_length_ge (by omega)]
  refine List.map_congr_left fun d _ => ?_
  have hno : ¬ isAssumptionAt steps d (i + 1) = true := by
    rw [isAssumptionAt_iff ht]
    exact fun h => ha h.1
  rw [lastAssumption?_succ, if_neg hno]

theorem openAssumptions_zero (hs : steps[0]? = some s) :
    openAssumptions steps 0 = if s.isAssumption then [0] else [] := by
  have h := hn.head hs
  by_cases ha : s.isAssumption = true
  · rw [if_pos ha] at h ⊢
    have hat : isAssumptionAt steps 2 0 = true := (isAssumptionAt_iff hs).mpr ⟨ha, h⟩
    rw [openAssumptions_eq_map hn hs, h]
    simp [lastAssumption?_zero, hat]
  · rw [if_neg ha] at h ⊢
    rw [openAssumptions_eq_map hn hs, show s.depth - 1 = 0 by omega]
    rfl

end Stack

/-! ## Members of the stack -/

section Members

variable {steps : List Step} {s : Step} {i j k l m : Nat}

theorem openAssumptions_spec (h : j ∈ openAssumptions steps i) :
    j ≤ i ∧ ∃ s, steps[j]? = some s ∧ s.isAssumption = true := by
  obtain ⟨d, -, hd⟩ := List.mem_filterMap.mp h
  obtain ⟨hle, s, hs, ha, -⟩ := lastAssumption?_spec hd
  exact ⟨hle, s, hs, ha⟩

variable (hn : Proof.Nested 1 steps)
include hn

/-- The stack at an assumption on the stack is the stack up to this assumption. -/
theorem openAssumptions_getElem? (hi : i < steps.length) (hk : (openAssumptions steps i)[k]? = some j) :
    openAssumptions steps j = (openAssumptions steps i).take (k + 1) := by
  induction i generalizing k with
  | zero =>
    rw [openAssumptions_zero hn (List.getElem?_eq_getElem hi)] at hk ⊢
    split at hk
    next ha =>
      have hkj : k = 0 ∧ j = 0 := by
        cases k with
        | zero => exact ⟨rfl, by simpa using hk.symm⟩
        | succ k => simp at hk
      rw [hkj.1, hkj.2, openAssumptions_zero hn (List.getElem?_eq_getElem hi), if_pos ha]
      rfl
    next => simp at hk
  | succ i ih =>
    have hi' : i < steps.length := by omega
    by_cases ha : steps[i + 1].isAssumption = true
    · have hpush := openAssumptions_succ_push hn (List.getElem?_eq_getElem hi') (List.getElem?_eq_getElem hi) ha
      rw [hpush] at hk ⊢
      rcases Nat.lt_or_ge k (openAssumptions steps i).length with hlt | hge
      · rw [List.getElem?_append_left hlt] at hk
        rw [List.take_append_of_le_length (by omega)]
        exact ih hi' hk
      · -- the top of the stack is the assumption itself
        rw [List.getElem?_append_right hge, List.getElem?_singleton] at hk
        split at hk
        next hz =>
          cases hk
          rw [hpush, List.take_of_length_le (by rw [List.length_append, List.length_singleton]; omega)]
        next => cases hk
    · have hpop := openAssumptions_succ_pop hn (List.getElem?_eq_getElem hi') (List.getElem?_eq_getElem hi) ha
      rw [hpop] at hk ⊢
      rw [List.getElem?_take] at hk
      split at hk
      next hlt =>
        rw [ih hi' hk, List.take_take, Nat.min_eq_left (by omega)]
      next => cases hk

/-- The stack at an open assumption ends with it and is the lower part of the stack. -/
theorem openAssumptions_of_mem (hi : i < steps.length) (hj : j ∈ openAssumptions steps i) :
    openAssumptions steps j <+: openAssumptions steps i ∧ ∃ outer, openAssumptions steps j = outer ++ [j] := by
  obtain ⟨k, hk⟩ := List.mem_iff_getElem?.mp hj
  have heq := openAssumptions_getElem? hn hi hk
  refine ⟨heq ▸ List.take_prefix _ _, (openAssumptions steps i).take k, ?_⟩
  rw [heq, List.take_add_one, hk]
  rfl

/-- An assumption is on top of the stack at its own position. -/
theorem mem_openAssumptions_self (hs : steps[i]? = some s) (ha : s.isAssumption = true) :
    i ∈ openAssumptions steps i := by
  cases i with
  | zero =>
    rw [openAssumptions_zero hn hs, if_pos ha]
    exact List.mem_singleton.mpr rfl
  | succ i =>
    have hi : i < steps.length := by
      have := (List.getElem?_eq_some_iff.mp hs).1
      omega
    rw [openAssumptions_succ_push hn (List.getElem?_eq_getElem hi) hs ha]
    exact List.mem_append_right _ (List.mem_singleton.mpr rfl)

/-- The `m` outermost sub-proofs of position `l` are still open at the next step exactly if they were open before it
and the step is deep enough. -/
theorem take_eq_succ_iff (hlk : l ≤ k) (hk : k + 1 < steps.length) :
    (m ≤ (openAssumptions steps k).length ∧ (openAssumptions steps l).take m = (openAssumptions steps k).take m) ∧
        m < depthAt steps (k + 1) ↔
      m ≤ (openAssumptions steps (k + 1)).length ∧
        (openAssumptions steps l).take m = (openAssumptions steps (k + 1)).take m := by
  have hs : steps[k]? = some steps[k] := List.getElem?_eq_getElem (by omega)
  have ht : steps[k + 1]? = some steps[k + 1] := List.getElem?_eq_getElem hk
  have hlens := length_openAssumptions hn hs
  have hdepth := hn.next hs ht
  rw [depthAt_eq ht]
  by_cases ha : steps[k + 1].isAssumption = true
  · have hpush := openAssumptions_succ_push hn hs ht ha
    rw [if_pos ha] at hdepth
    rw [hpush, List.length_append, List.length_singleton]
    constructor
    · rintro ⟨⟨hle, heq⟩, -⟩
      rw [List.take_append_of_le_length hle]
      exact ⟨by omega, heq⟩
    · rintro ⟨hle, heq⟩
      rcases Nat.lt_or_ge (openAssumptions steps k).length m with hlt | hge
      · -- otherwise the new assumption would have been open at `l` already
        have hall : (openAssumptions steps k ++ [k + 1]).take m = openAssumptions steps k ++ [k + 1] :=
          List.take_of_length_le (by rw [List.length_append, List.length_singleton]; omega)
        have hmem : k + 1 ∈ (openAssumptions steps l).take m := by
          rw [heq, hall]
          exact List.mem_append_right _ (List.mem_singleton.mpr rfl)
        have := (openAssumptions_spec (List.mem_of_mem_take hmem)).1
        omega
      · rw [List.take_append_of_le_length hge] at heq
        exact ⟨⟨hge, heq⟩, by omega⟩
  · have hpop := openAssumptions_succ_pop hn hs ht ha
    rw [if_neg ha] at hdepth
    rw [hpop, List.take_take, List.length_take]
    constructor
    · rintro ⟨⟨hle, heq⟩, hlt⟩
      have hmin : min m (steps[k + 1].depth - 1) = m := by omega
      rw [hmin]
      exact ⟨by omega, heq⟩
    · rintro ⟨hle, heq⟩
      have hmin : min m (steps[k + 1].depth - 1) = m := by omega
      rw [hmin] at heq
      exact ⟨⟨by omega, heq⟩, by omega⟩

/-- **Depths and open sub-proofs.**  The `m` outermost sub-proofs of position `l` stay open up to position `k` exactly
if no step from the one to the other is less deep than they are. -/
theorem deep_iff_take_eq (hlk : l ≤ k) (hk : k < steps.length) (hm : m ≤ (openAssumptions steps l).length) :
    (∀ j, l ≤ j → j ≤ k → m < depthAt steps j) ↔
      m ≤ (openAssumptions steps k).length ∧ (openAssumptions steps l).take m = (openAssumptions steps k).take m := by
  obtain ⟨n, rfl⟩ := Nat.exists_eq_add_of_le hlk
  clear hlk
  induction n with
  | zero =>
    rw [Nat.add_zero] at hk ⊢
    refine ⟨fun _ => ⟨hm, rfl⟩, fun _ j hlj hjl => ?_⟩
    obtain rfl : j = l := by omega
    have hlen := length_openAssumptions hn (List.getElem?_eq_getElem hk)
    rw [depthAt_eq (List.getElem?_eq_getElem hk)]
    omega
  | succ n ih =>
    rw [← Nat.add_assoc] at hk ⊢
    rw [← take_eq_succ_iff hn (by omega) hk, ← ih (by omega)]
    constructor
    · exact fun h => ⟨fun j hlj hj => h j hlj (by omega), h _ (by omega) (by omega)⟩
    · rintro ⟨h, hlast⟩ j hlj hj
      rcases Nat.lt_or_ge j (l + n + 1) with hlt | hge
      · exact h j hlj (by omega)
      · obtain rfl : j = l + n + 1 := by omega
        exact hlast

/-- All sub-proofs around position `l` stay open up to `k` exactly if no step on the way is less deep than the one at
`l`. -/
theorem deep_iff_stays_open (hlk : l ≤ k) (hk : k < steps.length) :
    (∀ j, l ≤ j → j ≤ k → depthAt steps l ≤ depthAt steps j) ↔
      openAssumptions steps l <+: openAssumptions steps k := by
  have hl : steps[l]? = some steps[l] := List.getElem?_eq_getElem (by omega)
  have hdeep := deep_iff_take_eq hn hlk hk (Nat.le_refl (openAssumptions steps l).length)
  rw [depthAt_eq hl, ← length_openAssumptions hn hl]
  refine hdeep.trans ?_
  rw [List.take_length]
  exact ⟨fun h => h.2 ▸ List.take_prefix _ _, fun h => ⟨h.length_le, List.prefix_iff_eq_take.mp h⟩⟩

/-- The sub-proofs around position `k` have all been open since `l` exactly if no step on the way is less deep than the
one at `k`. -/
theorem deep_iff_was_open (hlk : l ≤ k) (hk : k < steps.length) :
    (∀ j, l ≤ j → j ≤ k → depthAt steps k ≤ depthAt steps j) ↔
      openAssumptions steps k <+: openAssumptions steps l := by
  have hl : steps[l]? = some steps[l] := List.getElem?_eq_getElem (by omega)
  have hlenl := length_openAssumptions hn hl
  rw [depthAt_eq (List.getElem?_eq_getElem hk), ← length_openAssumptions hn (List.getElem?_eq_getElem hk)]
  constructor
  · intro h
    have hle : (openAssumptions steps k).length ≤ (openAssumptions steps l).length := by
      have := h l (Nat.le_refl l) hlk
      rw [depthAt_eq hl] at this
      omega
    have heq := ((deep_iff_take_eq hn hlk hk hle).mp h).2
    rw [List.take_length] at heq
    exact heq ▸ List.take_prefix _ _
  · intro h
    refine (deep_iff_take_eq hn hlk hk h.length_le).mpr ⟨Nat.le_refl _, ?_⟩
    rw [List.take_length]
    exact (List.prefix_iff_eq_take.mp h).symm

end Members

/-! ## What may be cited -/

section Citable

variable {steps : List Step} {t : Step} {here line first last : Nat}

theorem lt_of_lineCitable (h : lineCitable steps here line = true) : line < here := by
  unfold lineCitable at h
  split at h
  · simp only [Bool.and_eq_true, decide_eq_true_eq] at h
    exact h.1
  · cases h

theorem lt_of_rangeCitable (h : rangeCitable steps here first last = true) : first ≤ last ∧ last < here := by
  unfold rangeCitable at h
  split at h
  · simp only [Bool.and_eq_true, decide_eq_true_eq] at h
    exact h.1.1.1.1
  · cases h

theorem stretch_eq_filterMap (hle : first ≤ last) (hlast : last < steps.length) :
    stretch steps first last = (List.range' first (last + 1 - first)).filterMap fun j => steps[j]? := by
  have key : ∀ n, first + n ≤ steps.length →
      (steps.take (first + n)).drop first = (List.range' first n).filterMap fun j => steps[j]? := by
    intro n
    induction n with
    | zero => simp
    | succ n ih =>
      intro hn
      rw [← Nat.add_assoc, List.take_add_one, List.drop_append_of_le_length (by rw [List.length_take]; omega),
        ih (by omega), List.range'_1_concat, List.filterMap_append]
      cases h : steps[first + n]? <;> simp [h]
  rw [← key (last + 1 - first) (by omega), show first + (last + 1 - first) = last + 1 by omega]
  rfl

theorem mem_stretch : t ∈ stretch steps first last ↔ ∃ j, first ≤ j ∧ j ≤ last ∧ steps[j]? = some t := by
  unfold stretch
  rw [List.mem_iff_getElem?]
  constructor
  · rintro ⟨n, hn⟩
    rw [List.getElem?_drop, List.getElem?_take] at hn
    split at hn
    next hlt => exact ⟨first + n, by omega, by omega, hn⟩
    next => cases hn
  · rintro ⟨j, hfj, hjl, hj⟩
    refine ⟨j - first, ?_⟩
    rw [List.getElem?_drop, List.getElem?_take, show first + (j - first) = j by omega, if_pos (by omega)]
    exact hj

theorem stretch_all_iff {d : Nat} (h : last < steps.length) :
    (stretch steps first last).all (fun u => d ≤ u.depth) = true ↔
      ∀ j, first ≤ j → j ≤ last → d ≤ depthAt steps j := by
  rw [List.all_eq_true]
  constructor
  · intro hall j hfj hjl
    have hj : steps[j]? = some steps[j] := List.getElem?_eq_getElem (by omega)
    rw [depthAt_eq hj]
    simpa using hall steps[j] (mem_stretch.mpr ⟨j, hfj, hjl, hj⟩)
  · intro hall u hu
    obtain ⟨j, hfj, hjl, hj⟩ := mem_stretch.mp hu
    have := hall j hfj hjl
    rw [depthAt_eq hj] at this
    simpa using this

/-- Within a sub-proof, a step is as deep as the assumption exactly if no other sub-proof is open at it. -/
theorem depthAt_eq_iff_open_eq (hn : Proof.Nested 1 steps) (hlast : last < steps.length)
    (hpre : openAssumptions steps first <+: openAssumptions steps last) {j : Nat} (hfj : first ≤ j) (hjl : j ≤ last) :
    depthAt steps j = depthAt steps first ↔ openAssumptions steps j = openAssumptions steps first := by
  have hs : steps[first]? = some steps[first] := List.getElem?_eq_getElem (by omega)
  have hj : steps[j]? = some steps[j] := List.getElem?_eq_getElem (by omega)
  have hin := (deep_iff_stays_open hn (Nat.le_trans hfj hjl) hlast).mpr hpre
  have hprej := (deep_iff_stays_open hn hfj (by omega)).mp fun k hfk hkj => hin k hfk (by omega)
  have hlenj := length_openAssumptions hn hj
  have hlens := length_openAssumptions hn hs
  rw [depthAt_eq hj, depthAt_eq hs]
  constructor
  · exact fun hd => (hprej.eq_of_length (by omega)).symm
  · intro heq
    rw [heq] at hlenj
    omega

variable (hn : Proof.Nested 1 steps) (hhere : here < steps.length)
include hn hhere

/-- A line may be cited exactly as long as all sub-proofs around it are open. -/
theorem lineCitable_iff : lineCitable steps here line = true ↔
    line < here ∧ openAssumptions steps line <+: openAssumptions steps here := by
  by_cases hlt : line < here
  · have hs : steps[line]? = some steps[line] := List.getElem?_eq_getElem (by omega)
    simp only [lineCitable, hs, Bool.and_eq_true, decide_eq_true_eq, hlt, true_and]
    rw [stretch_all_iff hhere, ← depthAt_eq hs]
    exact deep_iff_stays_open hn (Nat.le_of_lt hlt) hhere
  · exact ⟨fun h => absurd (lt_of_lineCitable h) hlt, fun h => absurd h.1 hlt⟩

/-- The conditions on a cited sub-proof, with open assumptions in place of depths. -/
theorem rangeCitable_iff_open (hfl : first ≤ last) (hlh : last < here) : rangeCitable steps here first last = true ↔
    first ∈ openAssumptions steps first ∧ depthAt steps first = depthAt steps here + 1 ∧
      openAssumptions steps first <+: openAssumptions steps last ∧
      openAssumptions steps here <+: openAssumptions steps first := by
  have hs : steps[first]? = some steps[first] := List.getElem?_eq_getElem (by omega)
  have ht : steps[here]? = some steps[here] := List.getElem?_eq_getElem hhere
  have hlast : last < steps.length := by omega
  have hassume : steps[first].isAssumption = true ↔ first ∈ openAssumptions steps first := by
    refine ⟨mem_openAssumptions_self hn hs, fun h => ?_⟩
    obtain ⟨-, s, hs', ha⟩ := openAssumptions_spec h
    rw [hs] at hs'
    cases hs'
    exact ha
  simp only [rangeCitable, hs, ht, hfl, hlh, decide_true, Bool.true_and, Bool.and_eq_true, beq_iff_eq]
  rw [stretch_all_iff hlast, stretch_all_iff hhere, ← depthAt_eq hs, ← depthAt_eq ht, hassume,
    ← deep_iff_stays_open hn hfl hlast, ← deep_iff_was_open hn (by omega) hhere]
  constructor
  · rintro ⟨⟨⟨ha, hd⟩, hin⟩, hout⟩
    refine ⟨ha, hd, hin, fun j hfj hjh => ?_⟩
    rcases Nat.lt_or_ge last j with hlt | hge
    · exact hout j hlt hjh
    · have := hin j hfj hge
      omega
  · rintro ⟨ha, hd, hin, hall⟩
    exact ⟨⟨⟨ha, hd⟩, hin⟩, fun j hlj hjh => hall j (by omega) hjh⟩

/-- A sub-proof may be cited exactly from the scope that it was opened in, once it is closed. -/
theorem rangeCitable_iff : rangeCitable steps here first last = true ↔
    first ≤ last ∧ last < here ∧ openAssumptions steps first = openAssumptions steps here ++ [first] ∧
      first ∈ openAssumptions steps last := by
  by_cases hle : first ≤ last ∧ last < here
  · obtain ⟨hfl, hlh⟩ := hle
    have hs : steps[first]? = some steps[first] := List.getElem?_eq_getElem (by omega)
    have hlens := length_openAssumptions hn hs
    have hlent := length_openAssumptions hn (List.getElem?_eq_getElem hhere)
    rw [rangeCitable_iff_open hn hhere hfl hlh, depthAt_eq hs, depthAt_eq (List.getElem?_eq_getElem hhere)]
    constructor
    · rintro ⟨hself, hd, hopen, hscope⟩
      obtain ⟨-, outer, heq⟩ := openAssumptions_of_mem hn (by omega) hself
      refine ⟨hfl, hlh, ?_, hopen.subset hself⟩
      -- the stack at `here` is one shorter, so it is what lies below `first`
      have hlen := congrArg List.length heq
      rw [List.length_append, List.length_singleton] at hlen
      rw [heq] at hscope ⊢
      have hpre : openAssumptions steps here <+: outer :=
        List.prefix_of_prefix_length_le hscope (List.prefix_append _ _) (by omega)
      rw [hpre.eq_of_length (by omega)]
    · rintro ⟨-, -, heq, hmem⟩
      have hlen := congrArg List.length heq
      rw [List.length_append, List.length_singleton] at hlen
      refine ⟨?_, by omega, (openAssumptions_of_mem hn (by omega) hmem).1, ?_⟩
      · rw [heq]
        exact List.mem_append_right _ (List.mem_singleton.mpr rfl)
      · rw [heq]
        exact List.prefix_append _ _
  · exact ⟨fun h => absurd (lt_of_rangeCitable h) hle, fun h => absurd ⟨h.1, h.2.1⟩ hle⟩

/-- A sub-proof that may be cited contributes the lines that stand directly in it. -/
theorem premise?_range (h : rangeCitable steps here first last = true) :
    premise? steps (.range first last) = some (.subproof (sentencesAt steps (directlyIn steps first last))) := by
  obtain ⟨hfl, hlh, -, hmem⟩ := (rangeCitable_iff hn hhere).mp h
  have hlast : last < steps.length := by omega
  have hs : steps[first]? = some steps[first] := List.getElem?_eq_getElem (by omega)
  have hpre := (openAssumptions_of_mem hn hlast hmem).1
  simp only [premise?, hs, hfl, hlast, and_self, if_true, Option.map_some, Option.some.injEq, Premise.subproof.injEq]
  rw [stretch_eq_filterMap hfl hlast, List.filter_filterMap, List.map_filterMap]
  unfold sentencesAt directlyIn
  rw [List.filterMap_filter]
  refine List.filterMap_congr fun j hj => ?_
  rw [List.mem_range'_1] at hj
  have hsj : steps[j]? = some steps[j] := List.getElem?_eq_getElem (by omega)
  have hd := depthAt_eq_iff_open_eq hn hlast hpre hj.1 (show j ≤ last by omega)
  rw [depthAt_eq hsj, depthAt_eq hs] at hd
  by_cases heq : openAssumptions steps j = openAssumptions steps first
  · simp [hsj, heq, hd.mpr heq]
  · have hne : steps[j].depth ≠ steps[first].depth := fun h' => heq (hd.mp h')
    simp [hsj, heq, hne]

end Citable

/-! ## Scope in proofs that are read -/

/-- **Scope is lexical.**  From a step of a proof that was read, a line may be cited exactly if it comes before the
step and the assumptions open at the line are open at the step, in the same order.  A sub-proof may be cited exactly if
it ends before the step, its assumption is the only one that is open there and not at the step, and this assumption is
still open at its last line.  The sentences it contributes are those of the lines where nothing else is open. -/
theorem citable_iff_lexical {library : Library} {lines : List String} {p : Proof} {here : Nat}
    (hread : readProof library lines = .ok p) (hhere : here < p.steps.length) :
    (∀ line, citable p.steps here (.line line) = true ↔
      line < here ∧ openAssumptions p.steps line <+: openAssumptions p.steps here) ∧
    (∀ first last, citable p.steps here (.range first last) = true ↔
      first ≤ last ∧ last < here ∧ openAssumptions p.steps first = openAssumptions p.steps here ++ [first] ∧
        first ∈ openAssumptions p.steps last) ∧
    ∀ first last, citable p.steps here (.range first last) = true →
      premise? p.steps (.range first last) =
        some (.subproof (sentencesAt p.steps (directlyIn p.steps first last))) := by
  have hn := (Proof.laidOut_of_readProof hread).1.nested
  refine ⟨fun line => ?_, fun first last => ?_, fun first last h => ?_⟩
  · exact lineCitable_iff hn hhere
  · exact rangeCitable_iff hn hhere
  · exact premise?_range hn hhere h

/-- A sub-proof with a sub-proof of its own, cited from the level around it, contributes two of its four lines. -/
theorem citable_iff_lexical_nested : ∃ p, readProof Library.builtin
      ["|-", "||1 p A", "||-", "|||2 q A", "|||-", "|||3 p R(1)", "||4 q -> p +I(2-3)", "|5 p -> (q -> p) +I(1-4)"]
        = .ok p ∧ 4 < p.steps.length ∧ openAssumptions p.steps 2 = [0, 1] ∧
      (citable p.steps 4 (.range 0 3) = true ↔ 0 ≤ 3 ∧ 3 < 4 ∧
        openAssumptions p.steps 0 = openAssumptions p.steps 4 ++ [0] ∧ 0 ∈ openAssumptions p.steps 3) ∧
      premise? p.steps (.range 0 3) = some (.subproof [.atom 'p', .implies (.atom 'q') (.atom 'p')]) := by
  let q : Sentence := .atom 'q'
  let p : Sentence := .atom 'p'
  let proof : Proof := ⟨[⟨1, 0, 2, p, ⟨"A", []⟩⟩, ⟨3, 1, 3, q, ⟨"A", []⟩⟩, ⟨5, 2, 3, p, ⟨"R", [.line 0]⟩⟩,
    ⟨6, 3, 2, q.implies p, ⟨"+I", [.range 1 2]⟩⟩, ⟨7, 4, 1, p.implies (q.implies p), ⟨"+I", [.range 0 3]⟩⟩]⟩
  have hread : readProof Library.builtin
      ["|-", "||1 p A", "||-", "|||2 q A", "|||-", "|||3 p R(1)", "||4 q -> p +I(2-3)", "|5 p -> (q -> p) +I(1-4)"]
        = .ok proof := by decide +kernel
  have hhere : 4 < proof.steps.length := by decide
  obtain ⟨-, hrange, hcontributes⟩ := citable_iff_lexical hread hhere
  have hcited : citable proof.steps 4 (.range 0 3) = true := by decide
  have hlines : directlyIn proof.steps 0 3 = [0, 3] := by decide
  have hpremise := hcontributes 0 3 hcited
  rw [hlines] at hpremise
  exact ⟨proof, hread, hhere, by decide, hrange 0 3, hpremise⟩

end Deduction
