import Deduction.Command.Models
import Deduction.Files.Tree
import Deduction.Proofs.Reading
import Deduction.Proofs.Traversal
import Deduction.Proofs.Truth

/-!
# Semantic consequence

Evaluation can fail in two ways, at a letter without a value and at a schema variable.  Entailment, tautologies and
truth tables go over the interpretations of the letters that occur, so the first never happens; and a sentence that was
read is ground, so the second does not happen to what a user can ask for.

* `Consequence`: what entailment is to decide.
* `Sentence.isGround_of_parse`, `Sentence.isGround_of_parseTop`: what is read is ground.
* `Command.exists_modelsLines`: a ground sentence has a truth table and a verdict.
* `Command.runModels_eq`: the truth table of a sentence that can be read is shown, unless the configuration is at fault.
-/

namespace Deduction

/-- Every assignment, of all letters and schema variables, that makes the premises true makes the conclusion true. -/
def Consequence (premises : List Sentence) (conclusion : Sentence) : Prop :=
  ∀ v w, (∀ p ∈ premises, p.truth v w = true) → conclusion.truth v w = true

/-- The sentence is true under every assignment. -/
def Sentence.Valid (s : Sentence) : Prop := ∀ v w, s.truth v w = true

/-! ## Deciding consequence -/

section Decision

variable {premises : List Sentence} {conclusion s : Sentence}

/-- **Entailment decides consequence.** -/
theorem exists_entails_eq (hg : ∀ p ∈ premises, p.isGround = true) (hc : conclusion.isGround = true) :
    ∃ answer, entails premises conclusion = .ok answer ∧ (answer = true ↔ Consequence premises conclusion) := by
  -- ground sentences have no schema variables, so any values will do for them
  obtain ⟨answer, h⟩ : ∃ answer, entails premises conclusion = .ok answer := ⟨_, entails_eq (fun _ => false) hg hc⟩
  have hiff : ∀ w, answer = true ↔ ∀ v, (∀ p ∈ premises, p.truth v w = true) → conclusion.truth v w = true := by
    intro w
    rw [← entails_eq_true_iff w hg hc, h, Except.ok.injEq]
  exact ⟨answer, h, fun ha v w => (hiff w).mp ha v, fun hall => (hiff fun _ => false).mpr fun v => hall v _⟩

/-- **Tautologies are the valid sentences.** -/
theorem exists_isTautology_eq (hs : s.isGround = true) :
    ∃ answer, s.isTautology = .ok answer ∧ (answer = true ↔ s.Valid) := by
  obtain ⟨answer, h⟩ : ∃ answer, s.isTautology = .ok answer := ⟨_, isTautology_eq (fun _ => false) hs⟩
  have hiff : ∀ w, answer = true ↔ ∀ v, s.truth v w = true := by
    intro w
    rw [← isTautology_eq_true_iff w hs, h, Except.ok.injEq]
  exact ⟨answer, h, fun ha v w => (hiff w).mp ha v, fun hall => (hiff fun _ => false).mpr fun v => hall v _⟩

end Decision

/-! ## Truth tables -/

namespace Sentence

variable {text : String} {s : Sentence}

theorem isGround_of_parse (h : parse text = .ok s) : s.isGround = true := reader_yields.readAll h

theorem isGround_of_parseTop (h : parseTop text = .ok s) : s.isGround = true := topReader_yields.readAll h

end Sentence

namespace Command

variable {s : Sentence} {text : String}

theorem exists_tableRow {i : Interpretation} (hs : s.isGround = true) (hi : i.Interprets s) :
    ∃ row, tableRow s i = .ok row := by
  unfold tableRow
  rw [Sentence.evaluate_of_interprets (fun _ => false) hs hi]
  exact ⟨_, rfl⟩

/-- A ground sentence has a truth table and a verdict. -/
theorem exists_modelsLines (hs : s.isGround = true) (spelling : Spelling) :
    ∃ lines, modelsLines s spelling = .ok lines := by
  have hi : ∀ i ∈ interpretations s.letters, i.Interprets s := fun i hi c hc => isSome_of_mem_interpretations hi hc
  obtain ⟨rows, hrows⟩ := exists_mapM_eq_ok_iff.mpr fun i h => exists_tableRow hs (hi i h)
  unfold modelsLines truthTable Sentence.models
  rw [hrows, split_eq (fun _ => false) hs hi]
  exact ⟨_, rfl⟩

theorem isGround_of_readSentence (h : readSentence text = .ok s) : s.isGround = true := by
  unfold readSentence at h
  cases hp : Sentence.parseTop (String.ofList (toAscii text.toList)) with
  | error e =>
    rw [hp] at h
    cases h
  | ok t =>
    rw [hp] at h
    cases h
    exact Sentence.isGround_of_parseTop hp

theorem liftM_ok {ε α : Type} {m : Type → Type} [Monad m] (a : α) :
    (liftM (Except.ok a : Except ε α) : ExceptT ε m α) = pure a := rfl

/-- **The truth table of a sentence that can be read is shown**, unless the configuration is at fault. -/
theorem runModels_eq {lines : Spelling → List String} (hs : readSentence text = .ok s)
    (hl : ∀ spelling, modelsLines s spelling = .ok (lines spelling)) (m : Type → Type) [Monad m] [LawfulMonad m]
    [FileAccess m] (config : Option String) : (runModels text config : ExceptT CommandError m Outcome) = do
      let config ← withConfig (Config.discover config)
      return { stdout := unlines (lines config.spelling) } := by
  unfold runModels
  refine bind_congr fun c => ?_
  rw [hs, liftM_ok, pure_bind, hl, Except.mapError, liftM_ok, pure_bind]

theorem run_withConfig_map {α β : Type} (step : StateM FileTree (Except ConfigError α)) (f : α → β) (tree : FileTree) :
    ((do let a ← withConfig step; return f a : ExceptT CommandError (StateM FileTree) β).run.run tree).1 =
      f <$> (step.run tree).1.mapError CommandError.config := by
  simp only [withConfig, bind_pure_comp, ExceptT.map_mk, Functor.map_map, ExceptT.run_mk, StateT.run_map]
  rfl

/-- On every tree of files, showing the truth table of a sentence that can be read never fails in evaluation. -/
theorem runModels_ne_evaluation (hs : readSentence text = .ok s) (config : Option String) (tree : FileTree)
    (e : EvalError) : ((runModels text config : ExceptT CommandError (StateM FileTree) Outcome).run.run tree).1 ≠
      .error (.evaluation e) := by
  choose lines hl using exists_modelsLines (isGround_of_readSentence hs)
  rw [runModels_eq hs hl, run_withConfig_map]
  cases ((Config.discover config : StateM FileTree (Except ConfigError Config)).run tree).1 with
  | error e' => simp [Except.mapError]
  | ok c => simp [Except.mapError]

end Command

/-- **Entailment and tautology decide consequence and validity**, under all assignments of all letters, and evaluation
never fails on ground sentences.  As only ground sentences are read, nor does it fail where a truth table is asked for:
a sentence that is accepted has lines to show, and the command shows them as soon as there is a configuration. -/
theorem consequence_is_decided :
    (∀ premises conclusion, (∀ p ∈ premises, p.isGround = true) → conclusion.isGround = true →
      ∃ answer, entails premises conclusion = .ok answer ∧ (answer = true ↔ Consequence premises conclusion)) ∧
    (∀ s : Sentence, s.isGround = true → ∃ answer, s.isTautology = .ok answer ∧ (answer = true ↔ s.Valid)) ∧
    (∀ text s, Sentence.parse text = .ok s ∨ Sentence.parseTop text = .ok s → s.isGround = true) ∧
    ∀ text s, Command.readSentence text = .ok s →
      (∃ lines : Spelling → List String, (∀ spelling, Command.modelsLines s spelling = .ok (lines spelling)) ∧
        ∀ (m : Type → Type) [Monad m] [LawfulMonad m] [FileAccess m] (config : Option String),
          (Command.runModels text config : ExceptT CommandError m Outcome) = do
            let config ← Command.withConfig (Config.discover config)
            return { stdout := unlines (lines config.spelling) }) ∧
      ∀ (config : Option String) (tree : FileTree) (e : EvalError),
        ((Command.runModels text config : ExceptT CommandError (StateM FileTree) Outcome).run.run tree).1 ≠
          .error (.evaluation e) := by
  refine ⟨fun premises conclusion => exists_entails_eq, fun s => exists_isTautology_eq, fun text s h => ?_,
    fun text s hs => ⟨?_, Command.runModels_ne_evaluation hs⟩⟩
  · exact h.elim Sentence.isGround_of_parse Sentence.isGround_of_parseTop
  · choose lines hl using Command.exists_modelsLines (Command.isGround_of_readSentence hs)
    exact ⟨lines, hl, Command.runModels_eq hs hl⟩

/-- Whatever follows from a contradiction follows also under assignments of other letters; the law of excluded middle is
valid, and its truth table is shown. -/
theorem consequence_is_decided_contradiction :
    Consequence [.atom 'p', .not (.atom 'p')] (.atom 'q') ∧
    Sentence.Valid (.binary .or (.atom 'p') (.not (.atom 'p'))) ∧
    ∀ (tree : FileTree) (e : EvalError),
      ((Command.runModels "p ∨ ¬p" none : ExceptT CommandError (StateM FileTree) Outcome).run.run tree).1 ≠
        .error (.evaluation e) := by
  have hread : Command.readSentence "p ∨ ¬p" = .ok (.binary .or (.atom 'p') (.not (.atom 'p'))) := by decide +kernel
  refine ⟨?_, ?_, (consequence_is_decided.2.2.2 _ _ hread).2 none⟩
  · have hg : ∀ p ∈ [Sentence.atom 'p', .not (.atom 'p')], p.isGround = true := List.all_eq_true.mp (by decide)
    obtain ⟨answer, h, hiff⟩ := consequence_is_decided.1 _ (.atom 'q') hg (by decide)
    have htrue : entails [.atom 'p', .not (.atom 'p')] (.atom 'q') = .ok true := by decide
    rw [htrue] at h
    exact hiff.mp (Except.ok.inj h).symm
  · obtain ⟨answer, h, hiff⟩ := consequence_is_decided.2.1 (.binary .or (.atom 'p') (.not (.atom 'p'))) (by decide)
    have htrue : Sentence.isTautology (.binary .or (.atom 'p') (.not (.atom 'p'))) = .ok true := by decide
    rw [htrue] at h
    exact hiff.mp (Except.ok.inj h).symm

end Deduction
