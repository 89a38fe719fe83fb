import Deduction.Report
import Deduction.Proofs.Passes
import Deduction.Proofs.Preservation

/-!
# Soundness of the check

A step of an accepted proof follows from the premises and the assumptions that are open at it, if the rules preserve
truth.  The argument goes along the positions: what a step cites stands before it, and a line that may be cited is
under no assumption that is not open at the step.  A cited sub-proof is under one assumption more, and this one is the
first of its lines.

* `Proof.holdsAt`: the run lemma, for one assignment of truth values.
* `verify_sound`: accepted proofs over truth-preserving libraries are sound.
* `builtin_sound`: the built-in rules never justify a falsehood.
-/

namespace Deduction

theorem mem_sentencesAt {steps : List Step} {positions : List Nat} {a : Sentence} :
    a ∈ sentencesAt steps positions ↔ ∃ j ∈ positions, ∃ s, steps[j]? = some s ∧ s.sentence = a := by
  simp [sentencesAt, List.mem_filterMap]

theorem head?_sentencesAt_directlyIn {steps : List Step} {first last : Nat} {s : Step} (hle : first ≤ last)
    (hs : steps[first]? = some s) : (sentencesAt steps (directlyIn steps first last)).head? = some s.sentence := by
  have hlen : last + 1 - first = (last - first) + 1 := by omega
  simp [directlyIn, sentencesAt, hlen, List.range'_succ, hs]

theorem Sentence.evaluate_implies {a b : Sentence} {i : Interpretation} {x y : Bool} (ha : a.evaluate i = .ok x)
    (hb : b.evaluate i = .ok y) : (a.implies b).evaluate i = .ok (!x || y) := by
  simp [Sentence.evaluate, ha, hb, Connective.apply, bind, Except.bind, pure, Except.pure]

namespace Proof

/-- If all assumptions open at position `i` are true, then so is the sentence there. -/
def HoldsAt (v w : Char → Bool) (steps : List Step) (i : Nat) : Prop :=
  (∀ a ∈ sentencesAt steps (openAssumptions steps i), a.truth v w = true) →
    ∀ s, steps[i]? = some s → s.sentence.truth v w = true

/-! ## What a step cites -/

section Cited

variable {steps : List Step} {v w : Char → Bool} {I : Interpretation} {here : Nat}
variable (hn : Nested 1 steps) (hhere : here < steps.length)
variable (hI : ∀ s ∈ steps, s.sentence.evaluate I = .ok (s.sentence.truth v w))
variable (hbefore : ∀ j < here, HoldsAt v w steps j)
variable (hopen : ∀ a ∈ sentencesAt steps (openAssumptions steps here), a.truth v w = true)
include hn hhere hI hbefore hopen

theorem trueIn_of_lineCitable {line : Nat} {q : Premise} (hc : lineCitable steps here line = true)
    (hq : premise? steps (.line line) = some q) : q.TrueIn I := by
  obtain ⟨hlt, hpre⟩ := (lineCitable_iff hn hhere).mp hc
  have ht : steps[line]? = some steps[line] := List.getElem?_eq_getElem (by omega)
  have htrue : steps[line].sentence.truth v w = true := by
    refine hbefore line hlt (fun a ha => ?_) _ ht
    obtain ⟨j, hj, s, hs, rfl⟩ := mem_sentencesAt.mp ha
    exact hopen _ (mem_sentencesAt.mpr ⟨j, hpre.subset hj, s, hs, rfl⟩)
  simp only [premise?, ht, Option.map_some, Option.some.injEq] at hq
  subst hq
  show steps[line].sentence.evaluate I = .ok true
  rw [hI _ (List.getElem_mem _), htrue]

theorem trueIn_of_rangeCitable {first last : Nat} {q : Premise} (hc : rangeCitable steps here first last = true)
    (hq : premise? steps (.range first last) = some q) : q.TrueIn I := by
  obtain ⟨hfl, hlh, hfirst, -⟩ := (rangeCitable_iff hn hhere).mp hc
  have hs : steps[first]? = some steps[first] := List.getElem?_eq_getElem (by omega)
  rw [premise?_range hn hhere hc, Option.some.injEq] at hq
  subst hq
  intro assumption ha line hl
  rw [head?_sentencesAt_directlyIn hfl hs, Option.mem_some_iff] at ha
  subst ha
  obtain ⟨j, hj, t, ht, rfl⟩ := mem_sentencesAt.mp hl
  simp only [directlyIn, List.mem_filter, List.mem_range'_1, decide_eq_true_eq] at hj
  obtain ⟨hjr, hjo⟩ := hj
  -- if the assumption of the sub-proof is true, then so is all that is open at a line directly in it
  have hline : steps[first].sentence.truth v w = true → t.sentence.truth v w = true := by
    intro hass
    refine hbefore j (by omega) (fun a ha => ?_) t ht
    rw [hjo, hfirst] at ha
    obtain ⟨k, hk, s, hks, rfl⟩ := mem_sentencesAt.mp ha
    rcases List.mem_append.mp hk with hk | hk
    · exact hopen _ (mem_sentencesAt.mpr ⟨k, hk, s, hks, rfl⟩)
    · rw [List.mem_singleton.mp hk, hs, Option.some.injEq] at hks
      rw [← hks]
      exact hass
  rw [Sentence.evaluate_implies (hI _ (List.mem_of_getElem? hs)) (hI _ (List.mem_of_getElem? ht))]
  cases hass : steps[first].sentence.truth v w with
  | false => rfl
  | true => rw [hline hass]; rfl

theorem trueIn_of_mem_citedPremises {s : Step} (hs : ∀ c ∈ s.reason.citations, citable steps here c = true)
    {q : Premise} (hq : q ∈ citedPremises steps s) : q.TrueIn I := by
  obtain ⟨c, hc, hcq⟩ := List.mem_filterMap.mp hq
  have hcite := hs c hc
  cases c with
  | line line => exact trueIn_of_lineCitable hn hhere hI hbefore hopen hcite hcq
  | range first last => exact trueIn_of_rangeCitable hn hhere hI hbefore hopen hcite hcq

end Cited

/-! ## Along the proof -/

/-- Every assignment of truth values is that of an interpretation of all sentences of the steps. -/
theorem exists_interpretation (v w : Char → Bool) (steps : List Step) :
    ∃ I : Interpretation, ∀ s ∈ steps, I.Interprets s.sentence ∧
      s.sentence.truth I.assignment w = s.sentence.truth v w := by
  obtain ⟨I, -, hI⟩ := exists_interprets v w (steps.flatMap fun s => s.sentence.letters)
  exact ⟨I, fun s hs => hI s.sentence fun c hc => List.mem_flatMap.mpr ⟨s, hs, hc⟩⟩

section Run

variable {library : Library} {allowed : Option (List Sentence)} {steps : List Step}
variable (hl : ∀ t ∈ library.templates, t.TruthPreserving) (hn : Nested 1 steps)
variable (hg : ∀ s ∈ steps, s.sentence.isGround = true) (ha : Accepted library allowed steps)
include hl hn hg ha

/-- **Where the premises are true, every step is true under its open assumptions.** -/
theorem holdsAt {v w : Char → Bool} (hp : ∀ s ∈ steps, s.isPremise = true → s.sentence.truth v w = true) (i : Nat) :
    HoldsAt v w steps i := by
  induction i using Nat.strongRecOn with
  | ind i ih =>
    intro hopen s hs
    have hmem := List.mem_of_getElem? hs
    by_cases hprem : s.isPremise = true
    · exact hp s hmem hprem
    by_cases hass : s.isAssumption = true
    · -- an assumption is among those that are open at it
      exact hopen _ (mem_sentencesAt.mpr ⟨i, mem_openAssumptions_self hn hs hass, s, hs, rfl⟩)
    -- rules are about interpretations, so the assignment is turned into one of all letters that occur
    obtain ⟨I, hint⟩ := exists_interpretation v w steps
    have hI : ∀ t ∈ steps, t.sentence.evaluate I = .ok (t.sentence.truth v w) := by
      intro t ht
      rw [← (hint t ht).2]
      exact Sentence.evaluate_of_interprets w (hg t ht) (hint t ht).1
    obtain ⟨σ, happ⟩ := ha.justified s hmem (by simpa using hprem) (by simpa using hass)
    have htrue := Library.apply_sound hl happ (hg s hmem) (hint s hmem).1 fun q hq =>
      trueIn_of_mem_citedPremises hn (List.getElem?_eq_some_iff.mp hs).1 hI ih hopen (ha.inScope i s hs) hq
    rw [hI s hmem] at htrue
    exact Except.ok.inj htrue

theorem entails_at {i : Nat} {s : Step} (hs : steps[i]? = some s) :
    entails ((steps.filter Step.isPremise).map Step.sentence ++ sentencesAt steps (openAssumptions steps i))
      s.sentence = .ok true := by
  have hground : ∀ a ∈ (steps.filter Step.isPremise).map Step.sentence ++
      sentencesAt steps (openAssumptions steps i), a.isGround = true := by
    intro a hmem
    rcases List.mem_append.mp hmem with hmem | hmem
    · obtain ⟨t, ht, rfl⟩ := List.mem_map.mp hmem
      exact hg t (List.mem_filter.mp ht).1
    · obtain ⟨j, -, t, ht, rfl⟩ := mem_sentencesAt.mp hmem
      exact hg t (List.mem_of_getElem? ht)
  rw [entails_eq_true_iff (fun _ => false) hground (hg s (List.mem_of_getElem? hs))]
  intro v hv
  refine holdsAt hl hn hg ha (fun t ht hprem => ?_) i (fun a hmem => ?_) s hs
  · exact hv _ (List.mem_append_left _ (List.mem_map_of_mem (List.mem_filter.mpr ⟨ht, hprem⟩)))
  · exact hv a (List.mem_append_right _ hmem)

end Run

end Proof

/-! ## Accepted proofs -/

/-- With more premises, not all of which need have truth values, the answer stays the same if there is one. -/
theorem entails_mono {fewer more : List Sentence} {c : Sentence} (hsub : ∀ a ∈ fewer, a ∈ more)
    (hg : ∀ a ∈ fewer, a.isGround = true) (hc : c.isGround = true) (h : entails fewer c = .ok true) {b : Bool}
    (hb : entails more c = .ok b) : b = true := by
  rw [entails_eq_true_iff (fun _ => false) hg hc] at h
  exact eq_true_of_entails (fun _ => false) (fun v hv => h v fun a ha => hv a (hsub a ha)) hb

section Verify

variable {library : Library} {task : Task} {lines : List String} {p : Proof}

theorem entails_of_verify (hl : ∀ t ∈ library.templates, t.TruthPreserving) (h : verify library task lines = .ok p)
    {i : Nat} {s : Step} (hs : p.steps[i]? = some s) :
    entails (p.premises.map Step.sentence ++ sentencesAt p.steps (openAssumptions p.steps i)) s.sentence
      = .ok true := by
  obtain ⟨hread, hfault⟩ := verify_eq_ok_iff.mp h
  obtain ⟨hlaid, hg⟩ := Proof.laidOut_of_readProof hread
  exact Proof.entails_at hl hlaid.nested hg (Proof.fault?_eq_none_iff.mp hfault).1 hs

/-- At depth one no assumption is open. -/
theorem entails_of_verify_outermost (hl : ∀ t ∈ library.templates, t.TruthPreserving)
    (h : verify library task lines = .ok p) {s : Step} (hs : s ∈ p.steps) (hd : s.depth = 1) :
    entails (p.premises.map Step.sentence) s.sentence = .ok true := by
  obtain ⟨i, hi⟩ := List.mem_iff_getElem?.mp hs
  have hnone : openAssumptions p.steps i = [] := by simp [openAssumptions, depthAt_eq hi, hd]
  have he := entails_of_verify hl h hi
  rw [hnone] at he
  simpa [sentencesAt] using he

theorem entails_allowed_of_verify (hl : ∀ t ∈ library.templates, t.TruthPreserving)
    (h : verify library task lines = .ok p) {allowed : List Sentence} (ha : task.allowedPremises = some allowed)
    {s : Step} (hs : s ∈ p.steps) (hd : s.depth = 1) {b : Bool} (hb : entails allowed s.sentence = .ok b) :
    b = true := by
  obtain ⟨hread, hfault⟩ := verify_eq_ok_iff.mp h
  have hacc := (Proof.fault?_eq_none_iff.mp hfault).1
  have hg := (Proof.laidOut_of_readProof hread).2
  refine entails_mono (fun a hmem => ?_) (fun a hmem => ?_) (hg s hs) (entails_of_verify_outermost hl h hs hd) hb
  · obtain ⟨t, ht, rfl⟩ := List.mem_map.mp hmem
    obtain ⟨hmem, hprem⟩ := List.mem_filter.mp ht
    exact hacc.allowed allowed ha t hmem hprem
  · obtain ⟨t, ht, rfl⟩ := List.mem_map.mp hmem
    exact hg t (List.mem_filter.mp ht).1

theorem Proof.exists_of_summary_conclusion {c : Sentence} (hc : p.summary.conclusion = some c) :
    ∃ s ∈ p.steps, s.depth = 1 ∧ s.sentence = c := by
  obtain ⟨s, hs, rfl⟩ := Option.map_eq_some_iff.mp hc
  rw [List.findRev?_eq_find?_reverse] at hs
  have hd := List.find?_some hs
  exact ⟨s, List.mem_reverse.mp (List.mem_of_find?_eq_some hs), by simpa using hd, rfl⟩

/-- **Accepted proofs are sound.**  Over a library of truth-preserving templates, every step of an accepted proof is
entailed by the premises together with the assumptions that are open at it.  The steps at depth one, and with them the
conclusion in the summary, are entailed by the premises alone.  Where allowed premises are given, their entailment of
these sentences is never denied, and it is confirmed if no schema variable leaves an allowed premise without a truth
value. -/
theorem verify_sound (hl : ∀ t ∈ library.templates, t.TruthPreserving) (h : verify library task lines = .ok p) :
    (∀ i s, p.steps[i]? = some s →
      entails (p.premises.map Step.sentence ++ sentencesAt p.steps (openAssumptions p.steps i)) s.sentence
        = .ok true) ∧
    (∀ s ∈ p.steps, s.depth = 1 → entails (p.premises.map Step.sentence) s.sentence = .ok true) ∧
    (∀ c, p.summary.conclusion = some c → entails (p.premises.map Step.sentence) c = .ok true) ∧
    ∀ allowed, task.allowedPremises = some allowed →
      (∀ s ∈ p.steps, s.depth = 1 → ∀ b, entails allowed s.sentence = .ok b → b = true) ∧
      (∀ c, p.summary.conclusion = some c → ∀ b, entails allowed c = .ok b → b = true) ∧
      ((∀ a ∈ allowed, a.isGround = true) →
        (∀ s ∈ p.steps, s.depth = 1 → entails allowed s.sentence = .ok true) ∧
        ∀ c, p.summary.conclusion = some c → entails allowed c = .ok true) := by
  have houter : ∀ s ∈ p.steps, s.depth = 1 → entails (p.premises.map Step.sentence) s.sentence = .ok true :=
    fun s hs hd => entails_of_verify_outermost hl h hs hd
  refine ⟨fun i s hs => entails_of_verify hl h hs, houter, fun c hc => ?_, fun allowed ha => ?_⟩
  · obtain ⟨s, hs, hd, rfl⟩ := Proof.exists_of_summary_conclusion hc
    exact houter s hs hd
  · have hallowed : ∀ s ∈ p.steps, s.depth = 1 → ∀ b, entails allowed s.sentence = .ok b → b = true :=
      fun s hs hd b hb => entails_allowed_of_verify hl h ha hs hd hb
    have hanswer : (∀ a ∈ allowed, a.isGround = true) → ∀ s ∈ p.steps, s.depth = 1 →
        entails allowed s.sentence = .ok true := by
      intro hg s hs hd
      have hvalue := entails_eq (fun _ => false) hg ((Proof.laidOut_of_readProof (verify_eq_ok_iff.mp h).1).2 s hs)
      rw [hvalue, hallowed s hs hd _ hvalue]
    refine ⟨hallowed, fun c hc => ?_, fun hg => ⟨hanswer hg, fun c hc => ?_⟩⟩
    · obtain ⟨s, hs, hd, rfl⟩ := Proof.exists_of_summary_conclusion hc
      exact hallowed s hs hd
    · obtain ⟨s, hs, hd, rfl⟩ := Proof.exists_of_summary_conclusion hc
      exact hanswer hg s hs hd

/-- A proof of `p → r` from two premises: inside the sub-proof the assumption is needed, after it the premises alone
are enough. -/
theorem verify_sound_chain : ∃ p : Proof,
    verify Library.builtin ⟨some [.implies (.atom 'p') (.atom 'q'), .implies (.atom 'q') (.atom 'r')], none⟩
      ["|1 p -> q V", "|2 q -> r V", "|-", "||3 p A", "||-", "||4 q -I(1,3)", "||5 r -I(2,4)", "|6 p -> r +I(3-5)"]
        = .ok p ∧
    entails (p.premises.map Step.sentence ++ [.atom 'p']) (.atom 'r') = .ok true ∧
    entails [.implies (.atom 'p') (.atom 'q'), .implies (.atom 'q') (.atom 'r')] (.implies (.atom 'p') (.atom 'r'))
      = .ok true := by
  let pq : Sentence := .implies (.atom 'p') (.atom 'q')
  let qr : Sentence := .implies (.atom 'q') (.atom 'r')
  let proof : Proof := ⟨[⟨0, 0, 1, pq, ⟨"V", []⟩⟩, ⟨1, 1, 1, qr, ⟨"V", []⟩⟩, ⟨3, 2, 2, .atom 'p', ⟨"A", []⟩⟩,
    ⟨5, 3, 2, .atom 'q', ⟨"-I", [.line 0, .line 2]⟩⟩, ⟨6, 4, 2, .atom 'r', ⟨"-I", [.line 1, .line 3]⟩⟩,
    ⟨7, 5, 1, .implies (.atom 'p') (.atom 'r'), ⟨"+I", [.range 2 4]⟩⟩]⟩
  have hv : verify Library.builtin ⟨some [pq, qr], none⟩
      ["|1 p -> q V", "|2 q -> r V", "|-", "||3 p A", "||-", "||4 q -I(1,3)", "||5 r -I(2,4)", "|6 p -> r +I(3-5)"]
        = .ok proof := by decide +kernel
  have hs := verify_sound (fun t ht => builtin_truthPreserving ht) hv
  have hopen : sentencesAt proof.steps (openAssumptions proof.steps 4) = [.atom 'p'] := by decide
  have hinner := hs.1 4 ⟨6, 4, 2, .atom 'r', ⟨"-I", [.line 1, .line 3]⟩⟩ rfl
  rw [hopen] at hinner
  have hconclusion : proof.summary.conclusion = some (.implies (.atom 'p') (.atom 'r')) := by decide
  exact ⟨proof, hv, hinner, ((hs.2.2.2 [pq, qr] rfl).2.2 (by decide)).2 _ hconclusion⟩

end Verify

/-! ## The built-in rules -/

theorem not_isTautology_of_isTautology {s : Sentence} (hg : s.isGround = true) (h : s.isTautology = .ok true) :
    (Sentence.not s).isTautology = .ok false := by
  have hn : (Sentence.not s).isGround = true := hg
  have htrue := (isTautology_eq_true_iff (fun _ => false) hg).mp h (fun _ => false)
  have hno : ¬ (Sentence.not s).isTautology = .ok true := by
    intro hnot
    have hfalse := (isTautology_eq_true_iff (fun _ => false) hn).mp hnot (fun _ => false)
    simp [Sentence.truth, htrue] at hfalse
  rw [isTautology_eq (fun _ => false) hn] at hno ⊢
  simpa using hno

/-- **The built-in rules never justify a falsehood.**  What a rule justifies is true wherever the cited lines are true
and the cited sub-proofs hold.  So in an accepted proof without premises, every step at depth one is a tautology and
none is a contradiction. -/
theorem builtin_sound :
    (∀ (name : String) (premises : List Premise) (conclusion : Sentence) (σ : Substitution), conclusion.isGround →
      Library.builtin.apply name premises conclusion = .ok σ → ∀ i : Interpretation, i.Interprets conclusion →
      (∀ q ∈ premises, q.TrueIn i) → conclusion.evaluate i = .ok true) ∧
    ∀ (task : Task) (lines : List String) (p : Proof), verify Library.builtin task lines = .ok p → p.premises = [] →
      ∀ s ∈ p.steps, s.depth = 1 →
        s.sentence.isTautology = .ok true ∧ (Sentence.not s.sentence).isTautology = .ok false := by
  have hl : ∀ t ∈ Library.builtin.templates, t.TruthPreserving := fun t ht => builtin_truthPreserving ht
  refine ⟨fun name premises conclusion σ hc h i hi hp => Library.apply_sound hl h hc hi hp, ?_⟩
  intro task lines p h hnone s hs hd
  have hg : s.sentence.isGround = true := (Proof.laidOut_of_readProof (verify_eq_ok_iff.mp h).1).2 s hs
  have he := entails_of_verify_outermost hl h hs hd
  rw [hnone, List.map_nil, entails_eq_true_iff (fun _ => false) (fun a ha => absurd ha List.not_mem_nil) hg] at he
  have htaut : s.sentence.isTautology = .ok true :=
    (isTautology_eq_true_iff (fun _ => false) hg).mpr fun v => he v fun a ha => absurd ha List.not_mem_nil
  exact ⟨htaut, not_isTautology_of_isTautology hg htaut⟩

/-- One sub-proof cited for both halves of a contradiction, and a proof of the excluded middle from nothing. -/
theorem builtin_sound_excluded_middle :
    (∃ (σ : Substitution) (i : Interpretation), Library.builtin.apply "RAA"
        [.subproof [.not (.atom 'p'), .atom 'q', .not (.atom 'q')]] (.atom 'p') = .ok σ ∧
      (Sentence.atom 'p').evaluate i = .ok true) ∧
    ∃ p : Proof, verify Library.builtin {}
        ["|-", "||1 !(p | !p) A", "||-", "|||2 p A", "|||-", "|||3 p | !p +A(2)", "|||4 !(p | !p) R(1)",
          "||5 !p RAA(2-4)", "||6 p | !p +A(5)", "|7 p | !p RAA(1-6)"] = .ok p ∧
      (Sentence.binary .or (.atom 'p') (.not (.atom 'p'))).isTautology = .ok true := by
  let q : Sentence := .atom 'q'
  let p : Sentence := .atom 'p'
  let middle : Sentence := .binary .or p (.not p)
  let i : Interpretation := (LetterMap.empty.insert 'p' true).insert 'q' false
  let proof : Proof := ⟨[⟨1, 0, 2, .not middle, ⟨"A", []⟩⟩, ⟨3, 1, 3, p, ⟨"A", []⟩⟩,
    ⟨5, 2, 3, middle, ⟨"+A", [.line 1]⟩⟩, ⟨6, 3, 3, .not middle, ⟨"R", [.line 0]⟩⟩,
    ⟨7, 4, 2, .not p, ⟨"RAA", [.range 1 3]⟩⟩, ⟨8, 5, 2, middle, ⟨"+A", [.line 4]⟩⟩,
    ⟨9, 6, 1, middle, ⟨"RAA", [.range 0 5]⟩⟩]⟩
  have happ : Library.builtin.apply "RAA" [.subproof [.not p, q, .not q]] p
      = .ok ((LetterMap.empty.insert 'A' p).insert 'B' q) := by decide +kernel
  have hinterprets : i.Interprets p := by
    intro c hc
    have hcp : c = 'p' := List.mem_singleton.mp hc
    rw [hcp]
    rfl
  have hpremise : ∀ r ∈ [Premise.subproof [.not p, q, .not q]], r.TrueIn i := by
    intro r hr
    rw [List.mem_singleton.mp hr]
    intro assumption ha
    rw [← Option.mem_some_iff.mp ha]
    decide
  have hv : verify Library.builtin {}
      ["|-", "||1 !(p | !p) A", "||-", "|||2 p A", "|||-", "|||3 p | !p +A(2)", "|||4 !(p | !p) R(1)",
        "||5 !p RAA(2-4)", "||6 p | !p +A(5)", "|7 p | !p RAA(1-6)"] = .ok proof := by decide +kernel
  refine ⟨⟨_, i, happ, builtin_sound.1 "RAA" _ p _ rfl happ i hinterprets hpremise⟩, proof, hv, ?_⟩
  exact (builtin_sound.2 {} _ proof hv rfl ⟨9, 6, 1, middle, ⟨"RAA", [.range 0 5]⟩⟩ (by simp [proof]) rfl).1

end Deduction
