import Mathlib.Logic.Relation
import Deduction.Proofs.Passes

/-!
# Bounds

The passes over the steps of a proof look at other steps by their positions, and these positions come from citations,
which may say anything.  `Guarded` holds the same passes with guarded accesses: a position or a stretch outside of the
list has no value, and neither has a pass that asks for one.  The tests stand in the order in which they are made, so
that a later access may rely on the tests before it.  The one sum of depths is guarded too: it is made as `next` says,
and has a value where `next` gives one.

* `Guarded.citable?_eq_some`: from a position in the list, every citation whatever can be tested.
* `Guarded.applicationFault?_eq_some`: once all citations are in scope, premises can be looked up without a test.
* `Guarded.fault?_eq_some`: a guarded check of any steps has a value, which is that of the check, if sums are right.
* `not_transGen_cites`: no step rests on itself.
-/

namespace Deduction

open Relation

/-! ## Guarded passes -/

namespace Guarded

/-- The depth one level further in. -/
def exactNext (depth : Nat) : Option Nat := some (depth + 1)

/-- The depth one level further in, if it fits into a word. -/
def checkedNext (depth : Nat) : Option Nat :=
  if depth + 1 < Reader.numberBound then some (depth + 1) else none

/-- The depth one level further in, counted in words, with zero after the largest one. -/
def wrappedNext (depth : Nat) : Option Nat := some ((depth + 1) % Reader.numberBound)

/-- The steps from position `first` to position `last`, both included, if both ends are in the list.  An empty stretch
may start right after its end. -/
def stretch? (steps : List Step) (first last : Nat) : Option (List Step) :=
  if first ≤ last + 1 ∧ last < steps.length then some (stretch steps first last) else none

/-- `lineCitable`, with guarded accesses. -/
def lineCitable? (steps : List Step) (here line : Nat) : Option Bool :=
  pure (decide (line < here)) <&&> do
    let part ← stretch? steps line here
    part.allM fun t => do
      let s ← steps[line]?
      return s.depth ≤ t.depth

/-- `rangeCitable`, with guarded accesses and sums. -/
def rangeCitable? (next : Nat → Option Nat) (steps : List Step) (here first last : Nat) : Option Bool :=
  pure (decide (first ≤ last)) <&&> pure (decide (last < here)) <&&> Step.isAssumption <$> steps[first]? <&&> do
    let t ← steps[here]?
    let s ← steps[first]?
    let inner ← next t.depth
    pure (s.depth == inner) <&&>
      (List.all · fun u => s.depth ≤ u.depth) <$> stretch? steps first last <&&>
      (List.all · fun u => t.depth ≤ u.depth) <$> stretch? steps (last + 1) here

/-- `citable`, with guarded accesses and sums. -/
def citable? (next : Nat → Option Nat) (steps : List Step) (here : Nat) : Citation → Option Bool
  | .line line => lineCitable? steps here line
  | .range first last => rangeCitable? next steps here first last

/-- The first citation of a step that is not in scope, looked for with guarded accesses and sums. -/
def scopeFaultAt? (next : Nat → Option Nat) (steps : List Step) (e : Step × Nat) :
    Option (Option (Located CheckError)) :=
  e.1.reason.citations.findSomeM? fun c => do
    let inScope ← citable? next steps e.2 c
    return if inScope then none else some (Proof.faultAt e.1 (.inaccessible c))

/-- `Proof.scopeFault?`, with guarded accesses and sums. -/
def scopeFault? (next : Nat → Option Nat) (steps : List Step) : Option (Option (Located CheckError)) :=
  steps.zipIdx.findSomeM? (scopeFaultAt? next steps)

/-- The premise that a citation stands for, looked up with guarded accesses and no test of the citation. -/
def premise? (steps : List Step) : Citation → Option Premise
  | .line line => do
    let s ← steps[line]?
    return .sentence s.sentence
  | .range first last => do
    let s ← steps[first]?
    let part ← stretch? steps first last
    return .subproof ((part.filter fun t => t.depth == s.depth).map Step.sentence)

/-- The fault of a step that its rule does not justify, looked for with guarded accesses. -/
def applicationFaultAt? (steps : List Step) (library : Library) (s : Step) : Option (Option (Located CheckError)) :=
  if s.isPremise || s.isAssumption then some none
  else do
    let premises ← s.reason.citations.mapM (premise? steps)
    match library.apply s.reason.rule premises s.sentence with
    | .ok _ => return none
    | .error e => return some (Proof.faultAt s (.invalidApplication s.reason.rule e))

/-- `Proof.applicationFault?`, with guarded accesses. -/
def applicationFault? (steps : List Step) (library : Library) : Option (Option (Located CheckError)) :=
  steps.findSomeM? (applicationFaultAt? steps library)

/-- `Proof.fault?`, with guarded accesses and sums: a pass is made if those before it found no fault. -/
def fault? (next : Nat → Option Nat) (library : Library) (task : Task) (steps : List Step) :
    Option (Option (Located CheckError)) :=
  [some (Proof.numberingFault? steps), scopeFault? next steps,
    some (task.allowedPremises.bind (Proof.premiseFault? steps)), applicationFault? steps library,
    some (task.expectedConclusion.bind (Proof.conclusionFault? steps))].findSomeM? id

/-- `Proof.check`, with guarded accesses and sums. -/
def check? (next : Nat → Option Nat) (library : Library) (task : Task) (p : Proof) :
    Option (Except (Located CheckError) Unit) := do
  match ← fault? next library task p.steps with
  | some e => return .error e
  | none => return .ok ()

end Guarded

/-! ## Guarded accesses that succeed -/

section Accesses

variable {α β : Type} {next : Nat → Option Nat} {steps : List Step} {here line first last : Nat} {c : Citation}

theorem findSomeM?_eq_some {f : α → Option (Option β)} {g : α → Option β} {l : List α}
    (h : ∀ a ∈ l, f a = some (g a)) : l.findSomeM? f = some (l.findSome? g) := by
  induction l with
  | nil => rfl
  | cons a l ih =>
    rw [List.forall_mem_cons] at h
    rw [List.findSomeM?, h.1, List.findSome?]
    cases g a with
    | none => exact ih h.2
    | some b => rfl

theorem mapM_eq_some_filterMap {f g : α → Option β} {l : List α} (h : ∀ a ∈ l, ∃ b, f a = some b ∧ g a = some b) :
    l.mapM f = some (l.filterMap g) := by
  induction l with
  | nil => rfl
  | cons a l ih =>
    rw [List.forall_mem_cons] at h
    obtain ⟨⟨b, hf, hg⟩, hl⟩ := h
    rw [List.mapM_cons, hf, ih hl, List.filterMap_cons_some hg]
    rfl

/-! ### Series of tests: one that fails ends the series -/

@[simp]
theorem true_andM (x : Option Bool) : (some true <&&> x) = x := rfl

@[simp]
theorem false_andM (x : Option Bool) : (some false <&&> x) = some false := rfl

theorem some_andM_some (a b : Bool) : (some a <&&> some b) = some (a && b) := by cases a <;> rfl

namespace Guarded

theorem stretch?_eq_some (hfirst : first ≤ last + 1) (hlast : last < steps.length) :
    stretch? steps first last = some (stretch steps first last) := if_pos ⟨hfirst, hlast⟩

/-! ### The pass over what is cited -/

theorem lineCitable?_eq_some (hhere : here < steps.length) :
    lineCitable? steps here line = some (lineCitable steps here line) := by
  unfold lineCitable? lineCitable
  by_cases hlt : line < here
  · have hline : steps[line]? = some steps[line] := List.getElem?_eq_getElem (by omega)
    rw [stretch?_eq_some (by omega) hhere, hline]
    simp only [hlt, decide_true, Option.pure_def, true_andM, Option.bind_eq_bind, Option.bind_some, Bool.true_and]
    exact List.allM_pure
  · simp only [hlt, decide_false, Option.pure_def, false_andM, Bool.false_and]
    cases steps[line]? <;> rfl

theorem rangeCitable?_eq_some (hhere : here < steps.length)
    (hnext : next steps[here].depth = some (steps[here].depth + 1)) :
    rangeCitable? next steps here first last = some (rangeCitable steps here first last) := by
  have ht : steps[here]? = some steps[here] := List.getElem?_eq_getElem hhere
  unfold rangeCitable? rangeCitable
  by_cases hle : first ≤ last
  · by_cases hlt : last < here
    · have hs : steps[first]? = some steps[first] := List.getElem?_eq_getElem (by omega)
      rw [stretch?_eq_some (by omega) (by omega), stretch?_eq_some (by omega) hhere, hs, ht]
      simp only [Option.pure_def, Option.map_eq_map, Option.map_some, Option.bind_eq_bind, Option.bind_some, hnext,
        some_andM_some, Bool.and_assoc]
    · -- `last` is not before `here`: the series ends before any access
      simp only [hle, hlt, decide_true, decide_false, Option.pure_def, true_andM, false_andM]
      cases steps[first]? <;> simp [ht]
  · simp only [hle, decide_false, Option.pure_def, false_andM]
    cases steps[first]? <;> simp [ht]

/-- From a position in the list, every citation can be tested, wherever it points. -/
theorem citable?_eq_some (hhere : here < steps.length)
    (hnext : next steps[here].depth = some (steps[here].depth + 1)) (c : Citation) :
    citable? next steps here c = some (citable steps here c) := by
  cases c with
  | line line => exact lineCitable?_eq_some hhere
  | range first last => exact rangeCitable?_eq_some hhere hnext

theorem scopeFault?_eq_some (hnext : ∀ s ∈ steps, next s.depth = some (s.depth + 1)) :
    scopeFault? next steps = some (Proof.scopeFault? steps) := by
  refine findSomeM?_eq_some fun e he => findSomeM?_eq_some fun c _ => ?_
  have hhere : e.2 < steps.length := by
    have := List.mem_zipIdx_iff_getElem?.mp he
    exact (List.getElem?_eq_some_iff.mp this).1
  rw [citable?_eq_some hhere (hnext _ (List.getElem_mem hhere))]
  rfl

/-! ### The pass that applies the rules -/

/-- A citation of earlier steps stands for a premise, and it is found without a test. -/
theorem exists_premise?_eq_some (hhere : here < steps.length) (hc : c.Precedes here) :
    ∃ p, premise? steps c = some p ∧ Deduction.premise? steps c = some p := by
  cases c with
  | line line =>
    have hlt : line < here := hc
    have hs : steps[line]? = some steps[line] := List.getElem?_eq_getElem (by omega)
    exact ⟨.sentence steps[line].sentence, by rw [premise?, hs]; rfl, by rw [Deduction.premise?, hs]; rfl⟩
  | range first last =>
    obtain ⟨hle, hlt⟩ := hc
    have hs : steps[first]? = some steps[first] := List.getElem?_eq_getElem (by omega)
    have hin : first ≤ last ∧ last < steps.length := by omega
    refine ⟨.subproof (((stretch steps first last).filter fun t => t.depth == steps[first].depth).map Step.sentence),
      ?_, ?_⟩
    · rw [premise?, hs, stretch?_eq_some (by omega) hin.2]
      rfl
    · rw [Deduction.premise?, if_pos hin, hs]
      rfl

theorem mapM_premise?_eq_some (hhere : here < steps.length) {s : Step}
    (hs : ∀ c ∈ s.reason.citations, c.Precedes here) :
    s.reason.citations.mapM (premise? steps) = some (Proof.citedPremises steps s) :=
  mapM_eq_some_filterMap fun c hc => exists_premise?_eq_some hhere (hs c hc)

/-- **Once everything cited is in scope, premises can be looked up without a test.** -/
theorem applicationFault?_eq_some (hscope : Proof.scopeFault? steps = none) (library : Library) :
    applicationFault? steps library = some (Proof.applicationFault? steps library) := by
  refine findSomeM?_eq_some fun s hs => ?_
  obtain ⟨i, hi, rfl⟩ := List.getElem_of_mem hs
  have hcited := Proof.scopeFault?_eq_none_iff.mp hscope i _ (List.getElem?_eq_getElem hi)
  unfold applicationFaultAt?
  split
  next => rfl
  next =>
    rw [mapM_premise?_eq_some hi fun c hc => precedes_of_citable (hcited c hc)]
    simp only [Option.bind_eq_bind, Option.bind_some]
    cases library.apply steps[i].reason.rule (Proof.citedPremises steps steps[i]) steps[i].sentence <;> rfl

/-- **No access of the check is out of bounds,** whatever the steps are: rules are applied only after a pass over all
steps has found everything cited to be in scope.  All that is asked is that the sums of depths are right. -/
theorem fault?_eq_some (hnext : ∀ s ∈ steps, next s.depth = some (s.depth + 1)) (library : Library) (task : Task) :
    fault? next library task steps = some (Proof.fault? library task steps) := by
  unfold fault? Proof.fault?
  rw [scopeFault?_eq_some hnext]
  cases Proof.numberingFault? steps with
  | some e => rfl
  | none =>
    cases hscope : Proof.scopeFault? steps with
    | some e => rfl
    | none =>
      rw [applicationFault?_eq_some hscope]
      cases task.allowedPremises.bind (Proof.premiseFault? steps) with
      | some e => rfl
      | none =>
        cases Proof.applicationFault? steps library with
        | some e => rfl
        | none => cases task.expectedConclusion.bind (Proof.conclusionFault? steps) <;> rfl

end Guarded

end Accesses

/-! ## Citations point backwards -/

section Cites

variable {steps : List Step} {here i j : Nat} {c : Citation}

/-- The citation refers to the step at position `j`. -/
def Citation.Covers (j : Nat) : Citation → Prop
  | .line number => j = number
  | .range first last => first ≤ j ∧ j ≤ last

/-- The step at position `i` cites the one at position `j`, alone or as part of a sub-proof. -/
def Cites (steps : List Step) (i j : Nat) : Prop :=
  ∃ s, steps[i]? = some s ∧ ∃ c ∈ s.reason.citations, c.Covers j

theorem Citation.Precedes.lt (h : c.Precedes here) (hj : c.Covers j) : j < here := by
  cases c with
  | line number => exact hj ▸ h
  | range first last => exact Nat.lt_of_le_of_lt hj.2 h.2

theorem lt_of_cites (hscope : Proof.scopeFault? steps = none) (h : Cites steps i j) : j < i := by
  obtain ⟨s, hs, c, hc, hj⟩ := h
  exact (precedes_of_citable (Proof.scopeFault?_eq_none_iff.mp hscope i s hs c hc)).lt hj

/-- **No step rests on itself,** not even through other steps. -/
theorem not_transGen_cites (hscope : Proof.scopeFault? steps = none) (i : Nat) : ¬ TransGen (Cites steps) i i := by
  have hdown : ∀ j, TransGen (Cites steps) i j → j < i := by
    intro j h
    induction h with
    | single h => exact lt_of_cites hscope h
    | tail _ h ih => exact Nat.lt_trans (lt_of_cites hscope h) ih
  exact fun h => Nat.lt_irrefl i (hdown i h)

end Cites

/-- **Checking is safe on arbitrary steps.**  No access to the steps is out of bounds, and if all depths are below the
largest word, then no sum is too large either.  And where the rules come to be applied, every citation, also one of a
premise or an assumption, runs forward and refers only to what stands before its step; so no step rests on itself. -/
theorem check_in_bounds (library : Library) (task : Task) (steps : List Step) :
    Guarded.fault? Guarded.exactNext library task steps = some (Proof.fault? library task steps) ∧
      ((∀ s ∈ steps, s.depth + 1 < Reader.numberBound) →
        Guarded.fault? Guarded.checkedNext library task steps = some (Proof.fault? library task steps)) ∧
      (Proof.numberingFault? steps = none ∧ Proof.scopeFault? steps = none ∧
          task.allowedPremises.bind (Proof.premiseFault? steps) = none →
        (∀ i s, steps[i]? = some s → ∀ c ∈ s.reason.citations,
          c.Precedes i ∧ (Guarded.premise? steps c).isSome = true) ∧
        ∀ i, ¬ TransGen (Cites steps) i i) := by
  refine ⟨Guarded.fault?_eq_some (fun _ _ => rfl) library task, fun hdepths => ?_, ?_⟩
  · exact Guarded.fault?_eq_some (fun s hs => if_pos (hdepths s hs)) library task
  rintro ⟨-, hscope, -⟩
  refine ⟨fun i s hs c hc => ?_, not_transGen_cites hscope⟩
  have hcited := precedes_of_citable (Proof.scopeFault?_eq_none_iff.mp hscope i s hs c hc)
  obtain ⟨p, hp, -⟩ := Guarded.exists_premise?_eq_some (List.getElem?_eq_some_iff.mp hs).1 hcited
  exact ⟨hcited, Option.isSome_of_eq_some hp⟩

/-- A sub-proof that is cited, whose assumption has a citation of its own. -/
theorem check_in_bounds_subproof :
    let p : Sentence := .atom 'p'
    let q : Sentence := .atom 'q'
    let steps : List Step := [⟨0, 0, 1, p, ⟨"V", []⟩⟩, ⟨2, 1, 2, q, ⟨"A", [.line 0]⟩⟩,
      ⟨4, 2, 2, p, ⟨"R", [.line 0]⟩⟩, ⟨5, 3, 1, q.implies p, ⟨"+F", [.range 1 2]⟩⟩]
    (Proof.numberingFault? steps = none ∧ Proof.scopeFault? steps = none ∧
        ((⟨some [p], none⟩ : Task).allowedPremises.bind (Proof.premiseFault? steps)) = none) ∧
      (∀ s ∈ steps, s.depth + 1 < Reader.numberBound) ∧
      Guarded.fault? Guarded.checkedNext .builtin ⟨some [p], none⟩ steps =
        some (Proof.fault? .builtin ⟨some [p], none⟩ steps) ∧
      (Guarded.premise? steps (.range 1 2)).isSome = true ∧ ¬ TransGen (Cites steps) 3 3 := by
  intro p q steps
  have hreached : Proof.numberingFault? steps = none ∧ Proof.scopeFault? steps = none ∧
      ((⟨some [p], none⟩ : Task).allowedPremises.bind (Proof.premiseFault? steps)) = none := by decide +kernel
  have hdepths : ∀ s ∈ steps, s.depth + 1 < Reader.numberBound := by decide +kernel
  obtain ⟨-, hsums, happlied⟩ := check_in_bounds .builtin ⟨some [p], none⟩ steps
  obtain ⟨hcited, hcycle⟩ := happlied hreached
  exact ⟨hreached, hdepths, hsums hdepths, (hcited 3 _ rfl (.range 1 2) (by simp)).2, hcycle 3⟩

end Deduction
