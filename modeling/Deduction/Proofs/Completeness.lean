import Mathlib.Tactic.Common
import Deduction.Proofs.Derivation
import Deduction.Proofs.Passes

/-!
# Completeness of the built-in rules

A derivation can be written down as the steps of a proof.  While it is written, every sentence it may use stands on a
line that can be cited: no step since then is less deep.  A derivation under one assumption more becomes a sub-proof,
and all that is written after its start is at least as deep as its assumption.

* `Proof.InOrder.infer`, `Proof.InOrder.discharge`: writing one step.
* `Derives.exists_continuation`: writing a derivation below steps that are there already.
* `check_complete`: every entailment has a proof that the check accepts.
-/

namespace Deduction

namespace Proof

/-! ## Lines that can be cited -/

/-- The sentence stands on the given line, and no step after it is less deep. -/
def Stands (steps : List Step) (a : Sentence) (line : Nat) : Prop :=
  ∃ t, steps[line]? = some t ∧ t.sentence = a ∧ ∀ u ∈ steps.drop line, t.depth ≤ u.depth

/-- The sentence stands on some line that can be cited from the depth of the last step on. -/
def Available (steps : List Step) (a : Sentence) : Prop := ∃ line, Stands steps a line

/-- The longer list goes on below the other one at its last depth, and comes back to it. -/
def Continues (steps longer : List Step) : Prop :=
  lastDepth 1 longer = lastDepth 1 steps ∧ ∃ more, longer = steps ++ more ∧ ∀ u ∈ more, lastDepth 1 steps ≤ u.depth

section Lines

variable {steps longer longest more : List Step} {a : Sentence} {x : Step} {line : Nat}

theorem Continues.refl : Continues steps steps := ⟨rfl, [], by simp, by simp⟩

theorem Continues.trans (h : Continues steps longer) (h' : Continues longer longest) : Continues steps longest := by
  obtain ⟨hd, more, rfl, hmore⟩ := h
  obtain ⟨hd', rest, rfl, hrest⟩ := h'
  refine ⟨hd'.trans hd, more ++ rest, List.append_assoc .., fun u hu => ?_⟩
  rcases List.mem_append.mp hu with hu | hu
  · exact hmore u hu
  · exact hd ▸ hrest u hu

theorem continues_concat (hd : x.depth = lastDepth 1 steps) : Continues steps (steps ++ [x]) := by
  refine ⟨by rw [lastDepth_concat, hd], [x], rfl, fun u hu => ?_⟩
  rw [List.mem_singleton.mp hu]
  exact Nat.le_of_eq hd.symm

theorem Stands.lt_length (h : Stands steps a line) : line < steps.length := by
  obtain ⟨t, ht, -⟩ := h
  exact (List.getElem?_eq_some_iff.mp ht).1

theorem Stands.append (h : Stands steps a line) (hmore : ∀ u ∈ more, lastDepth 1 steps ≤ u.depth) :
    Stands (steps ++ more) a line := by
  have hlt := h.lt_length
  obtain ⟨t, ht, ha, hdeep⟩ := h
  -- the last step is one of those after the line
  have hlast : t.depth ≤ lastDepth 1 steps := by
    have hgl : steps.getLast? = (steps.drop line).getLast? := by rw [List.getLast?_drop, if_neg (by omega)]
    cases hl : (steps.drop line).getLast? with
    | none => simp at hl; omega
    | some u =>
      simp only [lastDepth, hgl, hl, Option.map_some, Option.getD_some]
      exact hdeep u (List.mem_of_getLast? hl)
  refine ⟨t, by rw [List.getElem?_append_left hlt, ht], ha, fun u hu => ?_⟩
  rw [List.drop_append_of_le_length (by omega)] at hu
  rcases List.mem_append.mp hu with hu | hu
  · exact hdeep u hu
  · exact Nat.le_trans hlast (hmore u hu)

theorem Available.continues (h : Available steps a) (hc : Continues steps longer) : Available longer a := by
  obtain ⟨line, hl⟩ := h
  obtain ⟨-, more, rfl, hmore⟩ := hc
  exact ⟨line, hl.append hmore⟩

theorem available_concat : Available (steps ++ [x]) x.sentence :=
  ⟨steps.length, x, by simp, rfl, by simp⟩

theorem stretch_to_end (first : Nat) : stretch (steps ++ [x]) first steps.length = (steps ++ [x]).drop first := by
  rw [stretch, List.take_of_length_le (by simp)]

theorem Stands.citable (h : Stands steps a line) (hx : lastDepth 1 steps ≤ x.depth) :
    citable (steps ++ [x]) steps.length (.line line) = true := by
  have hone : ∀ u ∈ [x], lastDepth 1 steps ≤ u.depth := by simpa using hx
  obtain ⟨t, ht, -, hdeep⟩ := h.append hone
  simp only [Deduction.citable, lineCitable, ht, stretch_to_end, h.lt_length, decide_true, Bool.true_and,
    List.all_eq_true, decide_eq_true_eq]
  exact hdeep

theorem exists_lines {premises : List Sentence} (h : ∀ p ∈ premises, Available steps p) :
    ∃ lines, sentencesAt steps lines = premises ∧ ∀ line ∈ lines, ∃ a, Stands steps a line := by
  induction premises with
  | nil => exact ⟨[], rfl, by simp⟩
  | cons p rest ih =>
    obtain ⟨lines, hlines, hstand⟩ := ih fun q hq => h q (List.mem_cons_of_mem _ hq)
    obtain ⟨line, hl⟩ := h p List.mem_cons_self
    refine ⟨line :: lines, ?_, fun l hmem => ?_⟩
    · obtain ⟨t, ht, rfl, -⟩ := hl
      rw [← hlines]
      simp [sentencesAt, ht]
    · rcases List.mem_cons.mp hmem with rfl | hmem
      · exact ⟨p, hl⟩
      · exact hstand l hmem

end Lines

/-! ## Writing steps -/

/-- The steps are laid out and accepted with the built-in rules. -/
structure InOrder (allowed : Option (List Sentence)) (steps : List Step) : Prop where
  laidOut : LaidOut Library.builtin.contains steps
  accepted : Accepted Library.builtin allowed steps

/-- A step that comes after the given ones. -/
def nextStep (steps : List Step) (depth : Nat) (a : Sentence) (rule : String) (citations : List Citation) : Step :=
  ⟨steps.length, steps.length, depth, a, ⟨rule, citations⟩⟩

/-- The start of a sub-proof after the given steps. -/
def assumptionAfter (steps : List Step) (a : Sentence) : Step :=
  nextStep steps (lastDepth 1 steps + 1) a assumptionName []

theorem assumptionAfter_isAssumption (steps : List Step) (a : Sentence) :
    (assumptionAfter steps a).isAssumption = true :=
  beq_self_eq_true assumptionName

theorem builtin_name_of_apply {name : String} {premises : List Premise} {a : Sentence} {σ : Substitution}
    (h : Library.builtin.apply name premises a = .ok σ) :
    Library.builtin.contains name = true ∧ name ≠ premiseName ∧ name ≠ assumptionName := by
  have hnames : ∀ t ∈ Builtin.templates,
      Library.builtin.contains t.name = true ∧ t.name ≠ premiseName ∧ t.name ≠ assumptionName := by decide +kernel
  obtain ⟨t, ht, -⟩ := Library.firstFit_eq_ok h
  obtain ⟨hmem, rfl⟩ := Library.mem_get_ofTemplates.mp ht
  exact hnames t hmem

section Writing

variable {allowed : Option (List Sentence)} {steps : List Step} {a : Sentence}

theorem InOrder.one_le_lastDepth (h : InOrder allowed steps) : 1 ≤ lastDepth 1 steps := by
  cases hl : steps.getLast? with
  | none => simp [lastDepth, hl]
  | some s =>
    obtain ⟨i, hi⟩ := List.mem_iff_getElem?.mp (List.mem_of_getLast? hl)
    simpa [lastDepth, hl] using h.laidOut.nested.one_le_depth hi

theorem InOrder.assume (h : InOrder allowed steps) (a : Sentence) :
    InOrder allowed (steps ++ [assumptionAfter steps a]) := by
  have ha := assumptionAfter_isAssumption steps a
  have hfollows : (assumptionAfter steps a).Follows Library.builtin.contains (lastDepth 1 steps) := by
    rw [Step.Follows, if_pos ha]
    rfl
  refine ⟨h.laidOut.concat hfollows, h.accepted.concat rfl (fun c hc => ?_) ?_ ?_⟩
  · exact absurd hc List.not_mem_nil
  · intro _ _ hprem
    cases ha.symm.trans (premise_not_assumption hprem)
  · intro _ hass
    cases ha.symm.trans hass

/-- A step whose citations are in scope and whose rule applies to them. -/
theorem InOrder.apply (h : InOrder allowed steps) {depth : Nat} (h1 : 1 ≤ depth) (hle : depth ≤ lastDepth 1 steps)
    (rule : String) (citations : List Citation)
    (hscope : ∀ c ∈ citations, citable (steps ++ [nextStep steps depth a rule citations]) steps.length c = true)
    (happly : ∃ σ, Library.builtin.apply rule
      (citations.filterMap (premise? (steps ++ [nextStep steps depth a rule citations]))) a = .ok σ) :
    InOrder allowed (steps ++ [nextStep steps depth a rule citations]) := by
  obtain ⟨σ, hσ⟩ := happly
  obtain ⟨hcontains, hpremise, hassumption⟩ := builtin_name_of_apply hσ
  have hp : (nextStep steps depth a rule citations).isPremise = false := beq_false_of_ne hpremise
  have ha : (nextStep steps depth a rule citations).isAssumption = false := beq_false_of_ne hassumption
  refine ⟨h.laidOut.concat ?_, h.accepted.concat rfl hscope ?_ fun _ _ => ⟨σ, hσ⟩⟩
  · rw [Step.Follows, ha]
    exact ⟨hp, hcontains, h1, hle⟩
  · intro _ _ hprem
    rw [hp] at hprem
    cases hprem

/-- **Writing down the conclusion of a rule** whose premises can be cited. -/
theorem InOrder.infer (h : InOrder allowed steps) {name : String} {premises : List Sentence}
    (hp : ∀ p ∈ premises, Available steps p)
    (happly : ∃ σ, Library.builtin.apply name (premises.map .sentence) a = .ok σ) :
    ∃ x, InOrder allowed (steps ++ [x]) ∧ x.depth = lastDepth 1 steps ∧ x.sentence = a := by
  obtain ⟨lines, rfl, hstand⟩ := exists_lines hp
  let x := nextStep steps (lastDepth 1 steps) a name (lines.map .line)
  have hcited : (lines.map Citation.line).filterMap (premise? (steps ++ [x]))
      = (sentencesAt steps lines).map .sentence := by
    rw [List.filterMap_map, sentencesAt, List.map_filterMap]
    refine List.filterMap_congr fun line hl => ?_
    obtain ⟨_, hs⟩ := hstand line hl
    show (steps ++ [x])[line]?.map _ = _
    rw [List.getElem?_append_left hs.lt_length, Option.map_map]
    rfl
  refine ⟨x, h.apply h.one_le_lastDepth (Nat.le_refl _) name _ (fun c hc => ?_) (hcited ▸ happly), rfl, rfl⟩
  obtain ⟨line, hl, rfl⟩ := List.mem_map.mp hc
  obtain ⟨_, hs⟩ := hstand line hl
  exact hs.citable (Nat.le_refl _)

theorem InOrder.repeat (h : InOrder allowed steps) (ha : Available steps a) :
    ∃ x, InOrder allowed (steps ++ [x]) ∧ x.depth = lastDepth 1 steps ∧ x.sentence = a := by
  have hrule : Builtin.object "R" [Builtin.a] Builtin.a ∈ Builtin.templates := by decide
  have hone : ∀ p ∈ [a], Available steps p := fun p hp => List.mem_singleton.mp hp ▸ ha
  exact h.infer hone (Builtin.apply_object hrule _ (Builtin.bound_assign a a a hrule))

end Writing

/-! ## Closing sub-proofs -/

section Closing

variable {allowed : Option (List Sentence)} {steps rest after : List Step} {s t x : Step}

theorem length_block : (steps ++ s :: rest).length = steps.length + rest.length + 1 := by
  rw [List.length_append, List.length_cons]
  omega

theorem stretch_block :
    stretch (steps ++ s :: rest ++ after) steps.length (steps.length + rest.length) = s :: rest := by
  rw [stretch, ← length_block, List.take_left, List.drop_left]

theorem rangeCitable_block (hs : s.isAssumption = true) (hd : s.depth = x.depth + 1)
    (hdeep : ∀ u ∈ rest, s.depth ≤ u.depth) :
    rangeCitable (steps ++ s :: rest ++ [x]) (steps ++ s :: rest).length steps.length (steps.length + rest.length)
      = true := by
  have hfirst : (steps ++ s :: rest ++ [x])[steps.length]? = some s := by simp
  have hhere : (steps ++ s :: rest ++ [x])[(steps ++ s :: rest).length]? = some x := by simp
  have hlen : (steps ++ s :: rest).length = steps.length + rest.length + 1 := length_block
  have hafter : stretch (steps ++ s :: rest ++ [x]) (steps.length + rest.length + 1) (steps ++ s :: rest).length
      = [x] := by
    rw [stretch_to_end, ← hlen, List.drop_left]
  have hin : ((s :: rest).all fun u => s.depth ≤ u.depth) = true := by simpa using hdeep
  simp only [rangeCitable, hfirst, hhere, hafter, stretch_block, Bool.and_eq_true, decide_eq_true_eq, beq_iff_eq]
  exact ⟨⟨⟨⟨⟨by omega, by omega⟩, hs⟩, hd⟩, hin⟩, by simp⟩

theorem premise?_block : premise? (steps ++ s :: rest ++ after) (.range steps.length (steps.length + rest.length))
    = some (.subproof (((s :: rest).filter fun u => u.depth == s.depth).map Step.sentence)) := by
  have hfirst : (steps ++ s :: rest ++ after)[steps.length]? = some s := by simp
  have hlast : steps.length + rest.length < (steps ++ s :: rest ++ after).length := by
    rw [List.length_append, length_block]
    omega
  rw [premise?, if_pos ⟨by omega, hlast⟩, hfirst, stretch_block]
  rfl

/-- The implication from the assumption of a sub-proof to a line directly in it. -/
theorem InOrder.discharge (h : InOrder allowed (steps ++ s :: rest)) (hs : s.isAssumption = true)
    (hd : s.depth = lastDepth 1 steps + 1) (h1 : 1 ≤ lastDepth 1 steps) (hdeep : ∀ u ∈ rest, s.depth ≤ u.depth)
    (hlast : lastDepth 1 (steps ++ s :: rest) = s.depth) (ht : t ∈ rest) (htd : t.depth = s.depth) :
    ∃ x, InOrder allowed (steps ++ s :: rest ++ [x]) ∧ x.depth = lastDepth 1 steps ∧
      x.sentence = s.sentence.implies t.sentence := by
  refine ⟨_, h.apply h1 (by omega) "+I" [.range steps.length (steps.length + rest.length)] (fun c hc => ?_) ?_,
    rfl, rfl⟩
  · rw [List.mem_singleton.mp hc]
    exact rangeCitable_block hs hd hdeep
  · rw [List.filterMap_cons, premise?_block]
    refine Builtin.apply_implication ?_ ?_
    · simp
    · exact List.mem_map_of_mem (List.mem_filter.mpr ⟨List.mem_cons_of_mem _ ht, by simp [htd]⟩)

/-- **Closing a sub-proof.**  What was derived in it may stand on a line outside of it, so it is repeated before the
implication is written down. -/
theorem InOrder.close {inner : List Step} {a b : Sentence} (h : InOrder allowed steps)
    (hc : Continues (steps ++ [assumptionAfter steps a]) inner) (hi : InOrder allowed inner)
    (hb : Available inner b) :
    ∃ longer, Continues steps longer ∧ InOrder allowed longer ∧ Available longer (a.implies b) := by
  let s := assumptionAfter steps a
  have hs : s.depth = lastDepth 1 steps + 1 := rfl
  obtain ⟨hdepth, more, rfl, hmore⟩ := hc
  obtain ⟨t, hit, htd, rfl⟩ := hi.repeat hb
  rw [lastDepth_concat] at hdepth hmore
  rw [hdepth] at htd
  have hblock : steps ++ [s] ++ more ++ [t] = steps ++ s :: (more ++ [t]) := by simp
  have hdeep : ∀ u ∈ more ++ [t], s.depth ≤ u.depth := by
    intro u hu
    rcases List.mem_append.mp hu with hu | hu
    · exact hmore u hu
    · rw [List.mem_singleton.mp hu]
      exact Nat.le_of_eq htd.symm
  have hlast : lastDepth 1 (steps ++ s :: (more ++ [t])) = s.depth := by rw [← hblock, lastDepth_concat, htd]
  obtain ⟨x, hx, hxd, hxs⟩ := (hblock ▸ hit).discharge (assumptionAfter_isAssumption steps a) hs h.one_le_lastDepth
    hdeep hlast (List.mem_append_right _ List.mem_cons_self) htd
  refine ⟨_, ⟨?_, s :: (more ++ [t]) ++ [x], List.append_assoc .., fun u hu => ?_⟩, hx, hxs ▸ available_concat⟩
  · rw [lastDepth_concat, hxd]
  · rcases List.mem_append.mp hu with hu | hu
    · rcases List.mem_cons.mp hu with rfl | hu
      · omega
      · have := hdeep u hu
        omega
    · rw [List.mem_singleton.mp hu]
      exact Nat.le_of_eq hxd.symm

end Closing

end Proof

/-! ## Writing derivations -/

open Proof

section Derivations

variable {allowed : Option (List Sentence)} {Γ : List Sentence}

/-- The sentences can be derived one after the other, each below the steps for those before it. -/
theorem exists_continuation_all {premises : List Sentence}
    (h : ∀ p ∈ premises, ∀ steps, InOrder allowed steps → (∀ γ ∈ Γ, Available steps γ) →
      ∃ longer, Continues steps longer ∧ InOrder allowed longer ∧ Available longer p)
    {steps : List Step} (ho : InOrder allowed steps) (hΓ : ∀ γ ∈ Γ, Available steps γ) :
    ∃ longer, Continues steps longer ∧ InOrder allowed longer ∧ ∀ p ∈ premises, Available longer p := by
  induction premises generalizing steps with
  | nil => exact ⟨steps, .refl, ho, by simp⟩
  | cons p rest ih =>
    obtain ⟨longer, hc, ho, hp⟩ := h p List.mem_cons_self steps ho hΓ
    obtain ⟨longest, hc', ho', hrest⟩ := ih (fun q hq => h q (List.mem_cons_of_mem _ hq)) ho
      fun γ hγ => (hΓ γ hγ).continues hc
    exact ⟨longest, hc.trans hc', ho', List.forall_mem_cons.mpr ⟨hp.continues hc', hrest⟩⟩

/-- **A derivation can be written down** below steps from which its assumptions can be cited. -/
theorem Derives.exists_continuation {a : Sentence} (h : Derives Γ a) (steps : List Step) (ho : InOrder allowed steps)
    (hΓ : ∀ γ ∈ Γ, Available steps γ) :
    ∃ longer, Continues steps longer ∧ InOrder allowed longer ∧ Available longer a := by
  induction h generalizing steps with
  | hypothesis h => exact ⟨steps, .refl, ho, hΓ _ h⟩
  | rule name premises happly _ ih =>
    -- all premises first, and below them the one step that cites them
    obtain ⟨longer, hc, ho, hp⟩ := exists_continuation_all ih ho hΓ
    obtain ⟨x, hx, hd, rfl⟩ := ho.infer hp happly
    exact ⟨longer ++ [x], hc.trans (continues_concat hd), hx, available_concat⟩
  | @implication Γ a b _ ih =>
    -- within the sub-proof, its assumption can be cited and all that could be cited before
    have hΓ' : ∀ γ ∈ a :: Γ, Available (steps ++ [assumptionAfter steps a]) γ := by
      intro γ hγ
      rcases List.mem_cons.mp hγ with rfl | hγ
      · exact available_concat
      · obtain ⟨line, hl⟩ := hΓ γ hγ
        refine ⟨line, hl.append fun u hu => ?_⟩
        rw [List.mem_singleton.mp hu]
        exact Nat.le_succ _
    obtain ⟨inner, hc, hi, hb⟩ := ih _ (ho.assume a) hΓ'
    exact ho.close hc hi hb

end Derivations

/-! ## Proofs from premises -/

/-- The premises of a proof as its first steps. -/
def premiseSteps (premises : List Sentence) : List Step :=
  premises.mapIdx fun i p => ⟨i, i, 1, p, ⟨premiseName, []⟩⟩

section Premises

variable {premises : List Sentence} {s : Step} {i : Nat}

theorem getElem?_premiseSteps (h : (premiseSteps premises)[i]? = some s) :
    ∃ p, premises[i]? = some p ∧ s = ⟨i, i, 1, p, ⟨premiseName, []⟩⟩ := by
  rw [premiseSteps, List.getElem?_mapIdx, Option.map_eq_some_iff] at h
  obtain ⟨p, hp, rfl⟩ := h
  exact ⟨p, hp, rfl⟩

theorem of_mem_premiseSteps (h : s ∈ premiseSteps premises) :
    s.isPremise = true ∧ s.depth = 1 ∧ s.sentence ∈ premises := by
  obtain ⟨i, hi⟩ := List.mem_iff_getElem?.mp h
  obtain ⟨p, hp, rfl⟩ := getElem?_premiseSteps hi
  exact ⟨beq_self_eq_true premiseName, rfl, List.mem_of_getElem? hp⟩

theorem lastDepth_premiseSteps : lastDepth 1 (premiseSteps premises) = 1 := by
  cases hl : (premiseSteps premises).getLast? with
  | none => simp [lastDepth, hl]
  | some s => simp [lastDepth, hl, (of_mem_premiseSteps (List.mem_of_getLast? hl)).2.1]

theorem inOrder_premiseSteps : InOrder (some premises) (premiseSteps premises) := by
  refine ⟨⟨_, [], (List.append_nil _).symm, fun s hs => ?_, trivial⟩, fun i s hs => ?_, fun i s hs c hc => ?_, ?_, ?_⟩
  · exact ⟨(of_mem_premiseSteps hs).1, (of_mem_premiseSteps hs).2.1⟩
  · obtain ⟨p, -, rfl⟩ := getElem?_premiseSteps hs
    rfl
  · obtain ⟨p, -, rfl⟩ := getElem?_premiseSteps hs
    exact absurd hc List.not_mem_nil
  · intro sentences hsen s hs _
    rw [← Option.mem_some_iff.mp hsen]
    exact (of_mem_premiseSteps hs).2.2
  · intro s hs hp
    rw [(of_mem_premiseSteps hs).1] at hp
    cases hp

theorem available_premiseSteps {p : Sentence} (hp : p ∈ premises) : Available (premiseSteps premises) p := by
  obtain ⟨i, hi⟩ := List.mem_iff_getElem?.mp hp
  refine ⟨i, ⟨i, i, 1, p, ⟨premiseName, []⟩⟩, by simp [premiseSteps, hi], rfl, fun u hu => ?_⟩
  exact Nat.le_of_eq (of_mem_premiseSteps (List.mem_of_mem_drop hu)).2.1.symm

end Premises

/-- **The built-in rules are complete.**  If ground premises entail a ground conclusion, then there are steps, laid out
as those of a proof that is read, that the check accepts with no other premises allowed, and the last of them states
the conclusion at depth one. -/
theorem check_complete {premises : List Sentence} {conclusion : Sentence} (hp : ∀ p ∈ premises, p.isGround = true)
    (hc : conclusion.isGround = true) (h : entails premises conclusion = .ok true) :
    ∃ steps, LaidOut Library.builtin.contains steps ∧
      Proof.check Library.builtin ⟨some premises, some conclusion⟩ ⟨steps⟩ = .ok () ∧
      ∃ last, steps.getLast? = some last ∧ last.depth = 1 ∧ last.sentence = conclusion := by
  obtain ⟨steps, hcont, ho, ha⟩ := (derives_of_entails hp hc h).exists_continuation _ inOrder_premiseSteps
    fun p hmem => available_premiseSteps hmem
  obtain ⟨last, hlast, hd, rfl⟩ := ho.repeat ha
  rw [hcont.1, lastDepth_premiseSteps] at hd
  refine ⟨steps ++ [last], hlast.laidOut, ?_, last, List.getLast?_concat, hd, rfl⟩
  rw [check_eq_ok_iff, fault?_eq_none_iff]
  refine ⟨hlast.accepted, fun c hc => ?_⟩
  exact ⟨last, List.mem_append_right _ List.mem_cons_self, Option.mem_some_iff.mp hc⟩

/-- The disjunctive syllogism has a proof. -/
theorem check_complete_syllogism : ∃ steps, LaidOut Library.builtin.contains steps ∧
    Proof.check Library.builtin
      ⟨some [.binary .or (.atom 'p') (.atom 'q'), .not (.atom 'p')], some (.atom 'q')⟩ ⟨steps⟩ = .ok () ∧
    ∃ last, steps.getLast? = some last ∧ last.depth = 1 ∧ last.sentence = .atom 'q' :=
  check_complete (by decide) (by decide) (by decide)

end Deduction
