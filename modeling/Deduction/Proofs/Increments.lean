import Deduction.Rule.Builtin
import Deduction.Proofs.Bounds
import Deduction.Proofs.Faults

/-!
# Checking step by step

Every pass of the check goes through all steps, but what it finds at a step is told by the steps up to there.  So a
step that is added at the end neither repairs nor breaks what is before it.  This does not depend on how the one sum of
depths is made: the passes are those with guarded accesses and sums, for any `next`.

* `Guarded.fault?_of_append`: steps at the front of accepted ones are accepted.
* `Guarded.fault?_concat`: after one more step nothing but this step can be at fault.
* `check_incremental`: both for the check, and for the checks that add words.
-/

namespace Deduction

/-! ## Passes that find nothing -/

section Passes

variable {α β : Type} {l : List α} {f : α → Option (Option β)}

theorem findSomeM?_eq_none_iff : l.findSomeM? f = some none ↔ ∀ a ∈ l, f a = some none := by
  induction l with
  | nil => simp
  | cons a l ih =>
    rw [List.findSomeM?_cons, List.forall_mem_cons, ← ih]
    rcases f a with _ | _ | b <;> simp

theorem findSomeM?_concat (h : ∀ a ∈ l, f a = some none) (a : α) : (l ++ [a]).findSomeM? f = f a := by
  induction l with
  | nil =>
    rw [List.nil_append, List.findSomeM?_cons]
    rcases f a with _ | _ | b <;> rfl
  | cons b l ih =>
    rw [List.forall_mem_cons] at h
    rw [List.cons_append, List.findSomeM?_cons, h.1]
    exact ih h.2

/-- The later test of a series is made only if the earlier one succeeds. -/
theorem exists_andM {x y : Option Bool} (hx : ∃ a, x = some a) (hy : x = some true → ∃ b, y = some b) :
    ∃ b, (x <&&> y) = some b := by
  obtain ⟨a, rfl⟩ := hx
  cases a with
  | false => exact ⟨false, rfl⟩
  | true => exact hy rfl

theorem andM_eq_true {x y : Option Bool} (h : (x <&&> y) = some true) : x = some true ∧ y = some true := by
  rcases x with _ | _ | _
  · cases h
  · cases h
  · exact ⟨rfl, h⟩

end Passes

namespace Guarded

variable {next : Nat → Option Nat} {library : Library} {allowed : Option (List Sentence)}
variable {steps more : List Step} {x : Step} {here first last : Nat} {c : Citation}

/-! ## The past of a step -/

section Past

theorem stretch?_append (h : last < steps.length) :
    stretch? (steps ++ more) first last = stretch? steps first last := by
  have h' : last < (steps ++ more).length := by
    rw [List.length_append]
    omega
  unfold stretch?
  simp only [h, h', Proof.stretch_append h]

/-- What a step may cite does not depend on the steps after it. -/
theorem citable?_append (hhere : here < steps.length) (c : Citation) :
    citable? next (steps ++ more) here c = citable? next steps here c := by
  cases c with
  | line line =>
    show lineCitable? (steps ++ more) here line = lineCitable? steps here line
    unfold lineCitable?
    by_cases hlt : line < here
    · rw [stretch?_append hhere, List.getElem?_append_left (by omega)]
    · simp only [hlt, decide_false, Option.pure_def, false_andM]
  | range first last =>
    show rangeCitable? next (steps ++ more) here first last = rangeCitable? next steps here first last
    unfold rangeCitable?
    by_cases hle : first ≤ last
    · by_cases hlt : last < here
      · rw [stretch?_append hhere, stretch?_append (by omega), List.getElem?_append_left hhere,
          List.getElem?_append_left (by omega)]
      · simp only [hle, hlt, decide_true, decide_false, Option.pure_def, true_andM, false_andM]
    · simp only [hle, decide_false, Option.pure_def, false_andM]

theorem precedes_of_citable? (h : citable? next steps here c = some true) : c.Precedes here := by
  cases c with
  | line line =>
    show line < here
    exact of_decide_eq_true (Option.some.inj (andM_eq_true h).1)
  | range first last =>
    obtain ⟨hle, h⟩ := andM_eq_true h
    exact ⟨of_decide_eq_true (Option.some.inj hle), of_decide_eq_true (Option.some.inj (andM_eq_true h).1)⟩

/-- From a position in the list every citation can be tested, if the one sum that is needed has a value. -/
theorem exists_citable?_eq_some (hhere : here < steps.length) (hnext : (next steps[here].depth).isSome = true)
    (c : Citation) : ∃ b, citable? next steps here c = some b := by
  cases c with
  | line line => exact ⟨_, lineCitable?_eq_some hhere⟩
  | range first last =>
    obtain ⟨inner, hinner⟩ := Option.isSome_iff_exists.mp hnext
    -- both ends are in the list by the first two tests, before anything is looked up
    refine exists_andM ⟨_, rfl⟩ fun hle => exists_andM ⟨_, rfl⟩ fun hlt => ?_
    have hle : first ≤ last := of_decide_eq_true (Option.some.inj hle)
    have hlt : last < here := of_decide_eq_true (Option.some.inj hlt)
    have hs : steps[first]? = some steps[first] := List.getElem?_eq_getElem (by omega)
    have ht : steps[here]? = some steps[here] := List.getElem?_eq_getElem hhere
    rw [stretch?_eq_some (by omega) (by omega), stretch?_eq_some (by omega) hhere, hs, ht]
    simp only [Option.pure_def, Option.map_eq_map, Option.map_some, Option.bind_eq_bind, Option.bind_some, hinner,
      some_andM_some, Option.some.injEq, exists_eq']

theorem scopeFaultAt?_append {e : Step × Nat} (h : e.2 < steps.length) :
    scopeFaultAt? next (steps ++ more) e = scopeFaultAt? next steps e := by
  simp only [scopeFaultAt?, citable?_append h]

theorem precedes_of_scopeFaultAt? {e : Step × Nat} (h : scopeFaultAt? next steps e = some none) :
    ∀ c ∈ e.1.reason.citations, c.Precedes e.2 := by
  intro c hc
  have htest := findSomeM?_eq_none_iff.mp h c hc
  rcases hcitable : citable? next steps e.2 c with _ | _ | _
  · simp [hcitable] at htest
  · simp [hcitable] at htest
  · exact precedes_of_citable? hcitable

theorem applicationFaultAt?_append (hhere : here < steps.length) {s : Step}
    (hs : ∀ c ∈ s.reason.citations, c.Precedes here) :
    applicationFaultAt? (steps ++ more) library s = applicationFaultAt? steps library s := by
  have hhere' : here < (steps ++ more).length := by
    rw [List.length_append]
    omega
  unfold applicationFaultAt?
  rw [mapM_premise?_eq_some hhere hs, mapM_premise?_eq_some hhere' hs, Proof.citedPremises_append hhere hs]

end Past

/-! ## Accepted steps -/

section Accepted

/-- What the passes ask of the steps, each pass after the ones before it. -/
theorem fault?_eq_none_iff : fault? next library ⟨allowed, none⟩ steps = some none ↔
    Proof.numberingFault? steps = none ∧ (∀ e ∈ steps.zipIdx, scopeFaultAt? next steps e = some none) ∧
      allowed.bind (Proof.premiseFault? steps) = none ∧
      ∀ s ∈ steps, applicationFaultAt? steps library s = some none := by
  unfold fault? scopeFault? applicationFault?
  rw [findSomeM?_eq_none_iff]
  simp [findSomeM?_eq_none_iff]

/-- **The steps at the front of accepted ones are accepted without those after them.** -/
theorem fault?_of_append (h : fault? next library ⟨allowed, none⟩ (steps ++ more) = some none) :
    fault? next library ⟨allowed, none⟩ steps = some none := by
  obtain ⟨hnumbering, hscope, hallowed, happlication⟩ := fault?_eq_none_iff.mp h
  have hat : ∀ (i : Nat) (s : Step), steps[i]? = some s → i < steps.length ∧ (steps ++ more)[i]? = some s := by
    intro i s hs
    have hlt := (List.getElem?_eq_some_iff.mp hs).1
    exact ⟨hlt, by rw [List.getElem?_append_left hlt, hs]⟩
  have hpast : ∀ (i : Nat) (s : Step), steps[i]? = some s → scopeFaultAt? next steps (s, i) = some none := by
    intro i s hs
    obtain ⟨hlt, hs'⟩ := hat i s hs
    rw [← scopeFaultAt?_append hlt]
    exact hscope (s, i) (List.mem_zipIdx_iff_getElem?.mpr hs')
  refine fault?_eq_none_iff.mpr ⟨?_, fun e he => hpast e.2 e.1 (List.mem_zipIdx_iff_getElem?.mp he), ?_, fun s hs => ?_⟩
  · rw [Proof.numberingFault?_eq_none_iff] at hnumbering ⊢
    exact fun i s hs => hnumbering i s (hat i s hs).2
  · cases allowed with
    | none => rfl
    | some sentences =>
      rw [Option.bind_some, Proof.premiseFault?_eq_none_iff] at hallowed ⊢
      exact fun s hs => hallowed s (List.mem_append_left _ hs)
  · obtain ⟨i, hi⟩ := List.mem_iff_getElem?.mp hs
    rw [← applicationFaultAt?_append (hat i s hi).1 (precedes_of_scopeFaultAt? (hpast i s hi))]
    exact happlication s (List.mem_append_left _ hs)

end Accepted

/-! ## One more step -/

section OneMore

/-- The pass has a value, and what it finds is at the step `x`. -/
def Blames (x : Step) (r : Option (Option (Located CheckError))) : Prop :=
  ∃ found, r = some found ∧ ∀ e ∈ found, ∃ cause, e = Proof.faultAt x cause

theorem blames_none (x : Step) : Blames x (some none) := ⟨none, rfl, fun _ he => nomatch he⟩

theorem blames_faultAt (x : Step) (cause : CheckError) : Blames x (some (some (Proof.faultAt x cause))) :=
  ⟨_, rfl, fun _ he => ⟨cause, (Option.mem_some_iff.mp he).symm⟩⟩

theorem blames_findSomeM? {α : Type} {l : List α} {f : α → Option (Option (Located CheckError))}
    (h : ∀ a ∈ l, Blames x (f a)) : Blames x (l.findSomeM? f) := by
  induction l with
  | nil => exact blames_none x
  | cons a l ih =>
    rw [List.forall_mem_cons] at h
    obtain ⟨⟨found, hfound, hplace⟩, hl⟩ := h
    rw [List.findSomeM?_cons, hfound]
    cases found with
    | none => exact ih hl
    | some e => exact ⟨some e, rfl, hplace⟩

/-- A pass is made if those before it found nothing. -/
theorem Blames.cons {r : Option (Option (Located CheckError))} {rs : List (Option (Option (Located CheckError)))}
    (h : Blames x r) (hs : r = some none → Blames x (rs.findSomeM? id)) : Blames x ((r :: rs).findSomeM? id) := by
  obtain ⟨found, rfl, hfound⟩ := h
  cases found with
  | none => exact hs rfl
  | some e => exact ⟨some e, rfl, hfound⟩

theorem blames_numberingFault? (h : Proof.numberingFault? steps = none) (x : Step) :
    Blames x (some (Proof.numberingFault? (steps ++ [x]))) := by
  refine ⟨_, rfl, fun e he => ?_⟩
  obtain ⟨i, s, hs, hn, rfl⟩ := Proof.numberingFault?_eq_some he
  rcases Proof.getElem?_concat hs with ⟨-, hs⟩ | ⟨-, rfl⟩
  · exact absurd (Proof.numberingFault?_eq_none_iff.mp h i s hs) hn
  · exact ⟨_, rfl⟩

theorem blames_premiseFault? (h : allowed.bind (Proof.premiseFault? steps) = none) (x : Step) :
    Blames x (some (allowed.bind (Proof.premiseFault? (steps ++ [x])))) := by
  cases allowed with
  | none => exact blames_none x
  | some sentences =>
    refine ⟨_, rfl, fun e he => ?_⟩
    obtain ⟨s, hs, hp, hno, rfl⟩ := Proof.premiseFault?_eq_some he
    rcases List.mem_append.mp hs with hs | hs
    · exact absurd (Proof.premiseFault?_eq_none_iff.mp h s hs hp) hno
    · rw [List.mem_singleton.mp hs]
      exact ⟨_, rfl⟩

theorem blames_scopeFaultAt? (hhere : here < steps.length) (hnext : (next steps[here].depth).isSome = true) (x : Step) :
    Blames x (scopeFaultAt? next steps (x, here)) := by
  refine blames_findSomeM? fun c _ => ?_
  obtain ⟨b, hb⟩ := exists_citable?_eq_some hhere hnext c
  show Blames x (do
    let inScope ← citable? next steps here c
    return if inScope then none else some (Proof.faultAt x (.inaccessible c)))
  rw [hb]
  cases b with
  | false => exact blames_faultAt x _
  | true => exact blames_none x

theorem blames_applicationFaultAt? (hhere : here < steps.length) (hx : ∀ c ∈ x.reason.citations, c.Precedes here) :
    Blames x (applicationFaultAt? steps library x) := by
  unfold applicationFaultAt?
  split
  next => exact blames_none x
  next =>
    rw [mapM_premise?_eq_some hhere hx]
    simp only [Option.bind_eq_bind, Option.bind_some]
    cases library.apply x.reason.rule (Proof.citedPremises steps x) x.sentence with
    | ok σ => exact blames_none x
    | error e => exact blames_faultAt x _

/-- **After a step has been added to accepted ones, nothing but this step can be at fault.** -/
theorem fault?_concat (h : fault? next library ⟨allowed, none⟩ steps = some none)
    (hnext : (next x.depth).isSome = true) : Blames x (fault? next library ⟨allowed, none⟩ (steps ++ [x])) := by
  obtain ⟨hnumbering, hscope, hallowed, happlication⟩ := fault?_eq_none_iff.mp h
  have hhere : steps.length < (steps ++ [x]).length := by simp
  have hlast : (steps ++ [x])[steps.length] = x := by simp
  have hpast : ∀ e ∈ steps.zipIdx, e.2 < steps.length := fun e he =>
    (List.getElem?_eq_some_iff.mp (List.mem_zipIdx_iff_getElem?.mp he)).1
  -- of the steps before, no pass finds anything that it did not find without `x`
  have hscopeAt : scopeFault? next (steps ++ [x]) = scopeFaultAt? next (steps ++ [x]) (x, steps.length) := by
    unfold scopeFault?
    rw [List.zipIdx_append, Nat.zero_add]
    refine findSomeM?_concat (fun e he => ?_) _
    rw [scopeFaultAt?_append (hpast e he), hscope e he]
  have happlicationAt : applicationFault? (steps ++ [x]) library = applicationFaultAt? (steps ++ [x]) library x := by
    refine findSomeM?_concat (fun s hs => ?_) x
    obtain ⟨i, hi⟩ := List.mem_iff_getElem?.mp hs
    have he : (s, i) ∈ steps.zipIdx := List.mem_zipIdx_iff_getElem?.mpr hi
    rw [applicationFaultAt?_append (hpast (s, i) he) (precedes_of_scopeFaultAt? (hscope (s, i) he)), happlication s hs]
  unfold fault?
  rw [hscopeAt, happlicationAt]
  refine Blames.cons ?_ fun _ => Blames.cons ?_ fun hscoped => Blames.cons ?_ fun _ => Blames.cons ?_ fun _ => ?_
  · exact blames_numberingFault? hnumbering x
  · exact blames_scopeFaultAt? hhere (by rwa [hlast]) x
  · exact blames_premiseFault? hallowed x
  · exact blames_applicationFaultAt? hhere (precedes_of_scopeFaultAt? hscoped)
  · exact blames_none x

end OneMore

end Guarded

/-! ## Verdicts -/

/-- A check of lists of steps looks at the past of a step only.  Where a sum has no value the check has none, and this
does not come about by adding a step that `fits`. -/
structure Incremental (check : List Step → Option (Except (Located CheckError) Unit)) (fits : Step → Prop) : Prop where
  /-- Every list of steps at the front of an accepted one is accepted. -/
  front : ∀ steps front, check steps = some (.ok ()) → front <+: steps → check front = some (.ok ())
  /-- After one more step the check either accepts again or reports that step. -/
  next : ∀ steps x, check steps = some (.ok ()) → fits x → check (steps ++ [x]) = some (.ok ()) ∨
    ∃ cause, check (steps ++ [x]) = some (.error ⟨cause, x.source, some (.step x)⟩)

namespace Guarded

variable {next : Nat → Option Nat} {library : Library} {task : Task} {steps : List Step}

theorem check?_eq_ok_iff :
    check? next library task ⟨steps⟩ = some (.ok ()) ↔ fault? next library task steps = some none := by
  unfold check?
  rcases fault? next library task steps with _ | _ | e <;> simp

theorem check?_eq_error {e : Located CheckError} (h : fault? next library task steps = some (some e)) :
    check? next library task ⟨steps⟩ = some (.error e) := by
  unfold check?
  rw [h]
  rfl

theorem check?_exactNext (library : Library) (task : Task) (steps : List Step) :
    check? exactNext library task ⟨steps⟩ = some (Proof.check library task ⟨steps⟩) := by
  unfold check? Proof.check
  rw [fault?_eq_some (fun _ _ => rfl)]
  cases Proof.fault? library task steps <;> rfl

/-- **Checking is incremental, however depths are added.** -/
theorem incremental (next : Nat → Option Nat) (library : Library) (allowed : Option (List Sentence)) :
    Incremental (fun steps => check? next library ⟨allowed, none⟩ ⟨steps⟩) fun x => (next x.depth).isSome = true where
  front steps front h := by
    rintro ⟨more, rfl⟩
    exact check?_eq_ok_iff.mpr (fault?_of_append (check?_eq_ok_iff.mp h))
  next steps x h hx := by
    obtain ⟨found, hfound, hplace⟩ := fault?_concat (check?_eq_ok_iff.mp h) hx
    cases found with
    | none => exact Or.inl (check?_eq_ok_iff.mpr hfound)
    | some e =>
      obtain ⟨cause, rfl⟩ := hplace e rfl
      exact Or.inr ⟨cause, check?_eq_error hfound⟩

end Guarded

/-- **Checking is incremental.**  Where no conclusion is expected, every list of steps at the front of an accepted one
is accepted, and after one more step the check either accepts again or reports that step.  The same holds of a check
that adds depths as words, with zero after the largest one.  If a sum that is too large ends the check instead, it holds
of further steps whose depth is below the largest word. -/
theorem check_incremental (library : Library) (allowed : Option (List Sentence)) :
    Incremental (fun steps => some (Proof.check library ⟨allowed, none⟩ ⟨steps⟩)) (fun _ => True) ∧
    Incremental (fun steps => Guarded.check? Guarded.wrappedNext library ⟨allowed, none⟩ ⟨steps⟩) (fun _ => True) ∧
    Incremental (fun steps => Guarded.check? Guarded.checkedNext library ⟨allowed, none⟩ ⟨steps⟩)
      fun x => x.depth + 1 < Reader.numberBound := by
  have hexact := Guarded.incremental Guarded.exactNext library allowed
  simp only [Guarded.check?_exactNext] at hexact
  have hwrapped := Guarded.incremental Guarded.wrappedNext library allowed
  have hchecked := Guarded.incremental Guarded.checkedNext library allowed
  refine ⟨⟨hexact.front, fun steps x h _ => hexact.next steps x h rfl⟩,
    ⟨hwrapped.front, fun steps x h _ => hwrapped.next steps x h rfl⟩, hchecked.front, fun steps x h hx => ?_⟩
  refine hchecked.next steps x h ?_
  show (if x.depth + 1 < Reader.numberBound then some (x.depth + 1) else none).isSome = true
  rw [if_pos hx]
  rfl

/-- The sub-proof is accepted while it is still open, and a step that cites it up to a line that is not there yet is
reported itself.  A step at the largest depth that cites the sub-proof is reported too, or ends the check. -/
theorem check_incremental_open_subproof : ∃ (steps : List Step) (x y : Step) (cause cause' : CheckError),
    steps.map Step.depth = [1, 2, 2] ∧ x.reason = ⟨"+I", [.range 1 3]⟩ ∧ y.depth + 1 = Reader.numberBound ∧
    Proof.check Library.builtin ⟨some [.atom 'p'], none⟩ ⟨steps⟩ = .ok () ∧
    some (Proof.check Library.builtin ⟨some [.atom 'p'], none⟩ ⟨steps.take 2⟩) = some (.ok ()) ∧
    Guarded.check? Guarded.checkedNext Library.builtin ⟨some [.atom 'p'], none⟩ ⟨steps ++ [x]⟩ =
      some (.error ⟨cause, x.source, some (.step x)⟩) ∧
    Guarded.check? Guarded.wrappedNext Library.builtin ⟨some [.atom 'p'], none⟩ ⟨steps ++ [y]⟩ =
      some (.error ⟨cause', y.source, some (.step y)⟩) ∧
    Guarded.check? Guarded.checkedNext Library.builtin ⟨some [.atom 'p'], none⟩ ⟨steps ++ [y]⟩ = none := by
  let p : Sentence := .atom 'p'
  let q : Sentence := .atom 'q'
  let steps : List Step := [⟨0, 0, 1, p, ⟨"V", []⟩⟩, ⟨2, 1, 2, q, ⟨"A", []⟩⟩, ⟨4, 2, 2, p, ⟨"R", [.line 0]⟩⟩]
  let x : Step := ⟨5, 3, 1, .binary .follows q p, ⟨"+I", [.range 1 3]⟩⟩
  let y : Step := ⟨5, 3, Reader.numberBound - 1, .implies q p, ⟨"+I", [.range 1 2]⟩⟩
  have hexact : Proof.check Library.builtin ⟨some [p], none⟩ ⟨steps⟩ = .ok () := by decide +kernel
  have hchecked : Guarded.check? Guarded.checkedNext Library.builtin ⟨some [p], none⟩ ⟨steps⟩ = some (.ok ()) := by
    decide +kernel
  have hwrapped : Guarded.check? Guarded.wrappedNext Library.builtin ⟨some [p], none⟩ ⟨steps⟩ = some (.ok ()) := by
    decide +kernel
  have hx : Guarded.check? Guarded.checkedNext Library.builtin ⟨some [p], none⟩ ⟨steps ++ [x]⟩ ≠ some (.ok ()) := by
    decide +kernel
  have hy : Guarded.check? Guarded.wrappedNext Library.builtin ⟨some [p], none⟩ ⟨steps ++ [y]⟩ ≠ some (.ok ()) := by
    decide +kernel
  obtain ⟨hi, hj, hk⟩ := check_incremental Library.builtin (some [p])
  obtain ⟨cause, hcause⟩ := (hk.next steps x hchecked (by decide +kernel)).resolve_left hx
  obtain ⟨cause', hcause'⟩ := (hj.next steps y hwrapped trivial).resolve_left hy
  refine ⟨steps, x, y, cause, cause', rfl, rfl, by decide +kernel, hexact, ?_, hcause, hcause', by decide +kernel⟩
  exact hi.front steps (steps.take 2) (congrArg some hexact) ⟨steps.drop 2, List.take_append_drop 2 steps⟩

end Deduction
