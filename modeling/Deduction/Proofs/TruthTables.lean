import Deduction.Proofs.Consequence
import Deduction.Proofs.Enumeration

/-!
# Truth tables

A truth table has one row for every interpretation of the letters of a sentence.  Its header is made from the list of
the letters and its rows from the entries of the interpretations; both are in the same order, as the letters are sorted.
The verdict below the table comes from the models of the sentence, which are found without looking at the table, so that
the two have to be shown to agree.

* `Sentence.models_eq`: the models of a ground sentence, in order.
* `Command.tableRow_eq`: the columns of a row are those of the header.
* `Command.modelsVerdict_eq_tautology_iff`, `Command.modelsVerdict_eq_contradiction_iff`: the verdicts differ.
* `truth_tables_complete`: the order of the interpretations, the split into models, the table and its verdict.
-/

namespace Deduction

/-! ## Models -/

section Models

variable {s : Sentence} {i : Interpretation}

theorem interprets_of_mem (hi : i ∈ interpretations s.letters) : i.Interprets s :=
  fun _ hc => isSome_of_mem_interpretations hi hc

/-- **The models of a ground sentence are those interpretations of its letters that make it true**, in order, and the
others make it false. -/
theorem Sentence.models_eq (hs : s.isGround = true) : s.models =
    .ok ⟨(interpretations s.letters).filter fun i => decide (s.evaluate i = .ok true),
      (interpretations s.letters).filter fun i => decide (s.evaluate i = .ok false)⟩ := by
  have hvalue : ∀ i ∈ interpretations s.letters, s.evaluate i = .ok (s.truth i.assignment fun _ => false) :=
    fun i hi => evaluate_of_interprets _ hs (interprets_of_mem hi)
  have htrue : ∀ i ∈ interpretations s.letters,
      decide (s.evaluate i = .ok true) = s.truth i.assignment fun _ => false := by
    intro i hi
    simp [hvalue i hi]
  have hfalse : ∀ i ∈ interpretations s.letters,
      decide (s.evaluate i = .ok false) = !s.truth i.assignment fun _ => false := by
    intro i hi
    simp [hvalue i hi]
  unfold models
  rw [split_eq (fun _ => false) hs fun i hi => interprets_of_mem hi, List.filter_congr htrue, List.filter_congr hfalse]

end Models

/-! ## Rows -/

namespace LetterMap

variable {α : Type}

theorem lookupEntry_graph {letters : List Char} (f : Char → α) (x : Char) :
    lookupEntry x (letters.map fun c => (c, f c)) = if x ∈ letters then some (f x) else none := by
  induction letters with
  | nil => rfl
  | cons c letters ih =>
    rw [List.map_cons, lookupEntry, ih]
    by_cases hx : x = c
    · subst hx
      simp
    · simp [hx]

end LetterMap

/-- The entries of an interpretation follow the letters, if these are sorted. -/
theorem entries_of_mem_interpretations {letters : List Char} {i : Interpretation} (hletters : letters.Pairwise (· < ·))
    (hi : i ∈ interpretations letters) : i.entries = letters.map fun c => (c, i.assignment c) := by
  refine LetterMap.entries_eq_of_lookupEntry i.increasing ?_ fun x => ?_
  · rwa [List.map_map, show Prod.fst ∘ (fun c => (c, i.assignment c)) = id from rfl, List.map_id]
  · rw [LetterMap.lookupEntry_graph]
    show i.get? x = _
    obtain ⟨k, hk⟩ := List.mem_iff_getElem?.mp hi
    split
    next hx =>
      obtain ⟨b, hb⟩ := Option.isSome_iff_exists.mp (isSome_of_mem_interpretations hi hx)
      rw [Interpretation.assignment, hb, Option.getD_some]
    next hx => exact (isRow_of_getElem? hk).other x hx

namespace Command

/-- The first line of a truth table: the letters of the sentence, and the sentence itself. -/
def tableHeader (s : Sentence) (spelling : Spelling) : String :=
  " ".intercalate (s.letters.map String.singleton) ++ " | " ++ String.ofList (spelling.sentence s)

/-- The line for an interpretation: the values of the letters, in their order, and at the end that of the sentence. -/
def rowText (letters : List Char) (i : Interpretation) (value : Bool) : String :=
  " ".intercalate (letters.map fun c => String.singleton (truthChar (i.assignment c))) ++ " | " ++
    String.singleton (truthChar value)

/-- The last character of a line. -/
def endsIn (c : Char) (line : String) : Bool := line.toList.getLast? == some c

section Rows

variable {s : Sentence} {i : Interpretation} {value : Bool}

/-- **A row has the columns of the header.** -/
theorem tableRow_eq (hi : i ∈ interpretations s.letters) (hvalue : s.evaluate i = .ok value) :
    tableRow s i = .ok (rowText s.letters i value) := by
  unfold tableRow
  rw [hvalue, entries_of_mem_interpretations s.pairwise_letters hi, List.map_map]
  rfl

theorem endsIn_rowText (letters : List Char) (i : Interpretation) (value : Bool) (c : Char) :
    endsIn c (rowText letters i value) = (truthChar value == c) := by
  simp [endsIn, rowText]

end Rows

/-! ## The verdict -/

/-- The verdict on a sentence that is always true. -/
def tautologyText : String := styled [.green, .bold] "tautology"

/-- The verdict on a sentence that is never true. -/
def contradictionText : String := styled [.red, .bold] "contradiction"

/-- The verdict on a sentence that has some models but not all. -/
def countText (count : Nat) : String := styled [.bold] (toString count) ++ " model" ++ plural count

section Verdict

variable {models : Models}

/-- A count has no colour, so it is told from the other verdicts by its third character. -/
theorem countText_ne {text : String} (h : text.toList[2]? ≠ some '1') (count : Nat) : countText count ≠ text := by
  rintro rfl
  exact h (by simp [countText, styled, Style.on, String.join])

theorem modelsVerdict_eq (models : Models) : modelsVerdict models =
    if models.falsifying = [] then tautologyText
    else if models.satisfying = [] then contradictionText
    else countText models.satisfying.length := by
  simp [modelsVerdict, tautologyText, contradictionText, countText]

theorem modelsVerdict_eq_tautology_iff : modelsVerdict models = tautologyText ↔ models.falsifying = [] := by
  rw [modelsVerdict_eq]
  split
  next h => exact iff_of_true rfl h
  next h =>
    refine iff_of_false ?_ h
    split
    next => decide
    next => exact countText_ne (by decide) _

theorem modelsVerdict_eq_contradiction_iff :
    modelsVerdict models = contradictionText ↔ models.falsifying ≠ [] ∧ models.satisfying = [] := by
  rw [modelsVerdict_eq]
  split
  next h => exact iff_of_false (by decide) fun h' => h'.1 h
  next h =>
    split
    next h' => exact iff_of_true rfl ⟨h, h'⟩
    next h' => exact iff_of_false (countText_ne (by decide) _) fun h'' => h' h''.2

theorem modelsVerdict_eq_countText (hf : models.falsifying ≠ []) (hs : models.satisfying ≠ []) :
    modelsVerdict models = countText models.satisfying.length := by
  rw [modelsVerdict_eq, if_neg hf, if_neg hs]

end Verdict

/-! ## The table and its verdict -/

/-- What is shown about a sentence below the header: a row for every interpretation, in order, with the value of the
sentence at its end, and a verdict that says what the last column shows. -/
structure Tabulated (s : Sentence) (rows : List String) (verdict : String) : Prop where
  in_order : List.Forall₂ (fun i row => ∃ value, s.evaluate i = .ok value ∧ row = rowText s.letters i value)
    (interpretations s.letters) rows
  tautology_iff : verdict = tautologyText ↔ ∀ row ∈ rows, endsIn 'T' row = true
  contradiction_iff : verdict = contradictionText ↔ ∀ row ∈ rows, endsIn 'F' row = true
  count_eq : (¬ ∀ row ∈ rows, endsIn 'T' row = true) → (¬ ∀ row ∈ rows, endsIn 'F' row = true) →
    verdict = countText (rows.countP (endsIn 'T'))

section Table

variable {s : Sentence} {value : Interpretation → Bool}

theorem truthTable_eq (hvalue : ∀ i ∈ interpretations s.letters, s.evaluate i = .ok (value i)) (spelling : Spelling) :
    truthTable s spelling =
      .ok (tableHeader s spelling :: (interpretations s.letters).map fun i => rowText s.letters i (value i)) := by
  unfold truthTable
  rw [mapM_eq_ok_map fun i hi => tableRow_eq hi (hvalue i hi)]
  rfl

theorem endsIn_truthChar (letters : List Char) (i : Interpretation) (value b : Bool) :
    endsIn (truthChar b) (rowText letters i value) = (value == b) := by
  rw [endsIn_rowText]
  cases value <;> cases b <;> decide

/-- All rows end in the same value if no interpretation gives the other one. -/
theorem forall_endsIn_iff (hvalue : ∀ i ∈ interpretations s.letters, s.evaluate i = .ok (value i)) (b : Bool) :
    (∀ row ∈ (interpretations s.letters).map fun i => rowText s.letters i (value i), endsIn (truthChar b) row = true) ↔
      ((interpretations s.letters).filter fun i => decide (s.evaluate i = .ok !b)) = [] := by
  rw [List.forall_mem_map, List.filter_eq_nil_iff]
  refine forall₂_congr fun i hi => ?_
  rw [endsIn_truthChar, hvalue i hi]
  cases value i <;> cases b <;> decide

theorem countP_endsIn (hvalue : ∀ i ∈ interpretations s.letters, s.evaluate i = .ok (value i)) :
    ((interpretations s.letters).map fun i => rowText s.letters i (value i)).countP (endsIn 'T') =
      ((interpretations s.letters).filter fun i => decide (s.evaluate i = .ok true)).length := by
  rw [List.countP_map, List.countP_eq_length_filter]
  congr 1
  refine List.filter_congr fun i hi => ?_
  show endsIn (truthChar true) (rowText s.letters i (value i)) = decide (s.evaluate i = .ok true)
  rw [endsIn_truthChar, hvalue i hi]
  cases value i <;> decide

/-- **The verdict says what the last column of the table shows.** -/
theorem tabulated_models (hvalue : ∀ i ∈ interpretations s.letters, s.evaluate i = .ok (value i)) :
    Tabulated s ((interpretations s.letters).map fun i => rowText s.letters i (value i))
      (modelsVerdict ⟨(interpretations s.letters).filter fun i => decide (s.evaluate i = .ok true),
        (interpretations s.letters).filter fun i => decide (s.evaluate i = .ok false)⟩) where
  in_order := by
    rw [List.forall₂_map_right_iff, List.forall₂_same]
    exact fun i hi => ⟨value i, hvalue i hi, rfl⟩
  tautology_iff := modelsVerdict_eq_tautology_iff.trans (forall_endsIn_iff hvalue true).symm
  contradiction_iff := by
    -- there is at least one row, so not all of them end in both values
    have hother : ((interpretations s.letters).filter fun i => decide (s.evaluate i = .ok true)) = [] →
        ((interpretations s.letters).filter fun i => decide (s.evaluate i = .ok false)) ≠ [] := by
      intro htrue hfalse
      obtain ⟨i, hi, -⟩ := exists_mem_interpretations (fun _ => false) s.letters
      have htrue := List.filter_eq_nil_iff.mp htrue i hi
      have hfalse := List.filter_eq_nil_iff.mp hfalse i hi
      rw [hvalue i hi] at htrue hfalse
      cases hb : value i <;> simp [hb] at htrue hfalse
    exact modelsVerdict_eq_contradiction_iff.trans
      ((and_iff_right_of_imp hother).trans (forall_endsIn_iff hvalue false).symm)
  count_eq hT hF := by
    rw [countP_endsIn hvalue]
    exact modelsVerdict_eq_countText (fun h => hT ((forall_endsIn_iff hvalue true).mpr h))
      fun h => hF ((forall_endsIn_iff hvalue false).mpr h)

/-- A ground sentence has a table and a verdict that agree, in every spelling. -/
theorem exists_tabulated (hs : s.isGround = true) : ∃ rows verdict,
    (∀ spelling, truthTable s spelling = .ok (tableHeader s spelling :: rows)) ∧
    (∀ spelling, modelsLines s spelling = .ok (tableHeader s spelling :: rows ++ ["", verdict])) ∧
    Tabulated s rows verdict := by
  have hvalue : ∀ i ∈ interpretations s.letters, s.evaluate i = .ok (s.truth i.assignment fun _ => false) :=
    fun i hi => Sentence.evaluate_of_interprets _ hs (interprets_of_mem hi)
  refine ⟨_, _, truthTable_eq hvalue, fun spelling => ?_, tabulated_models hvalue⟩
  unfold modelsLines
  rw [truthTable_eq hvalue, Sentence.models_eq hs]
  rfl

end Table

end Command

/-- **Truth tables are complete, in order, and agree with their verdicts.**  The interpretations of a list of letters
are numbered in binary, repeated letters included, and distinct letters give every interpretation of them once.  The
letters of a sentence are sorted and those that occur in it; its models and its countermodels are the interpretations of
these letters, split by its value; and what the command shows is a table of them in that order, with a verdict that can
be read off its last column. -/
theorem truth_tables_complete :
    (∀ letters : List Char, (interpretations letters).length = 2 ^ letters.length ∧
      ∀ (i : Nat) (m : Interpretation), (interpretations letters)[i]? = some m → IsRow letters i m) ∧
    (∀ letters : List Char, letters.Nodup → ∀ m : Interpretation, (∀ c, (m.get? c).isSome = true ↔ c ∈ letters) →
      ∃! i : Nat, (interpretations letters)[i]? = some m) ∧
    (∀ s : Sentence, s.letters.Pairwise (· < ·) ∧ ∀ c, c ∈ s.letters ↔ c ∈ s.occurrences) ∧
    ∀ s : Sentence, s.isGround = true →
      s.models = .ok ⟨(interpretations s.letters).filter fun i => decide (s.evaluate i = .ok true),
        (interpretations s.letters).filter fun i => decide (s.evaluate i = .ok false)⟩ ∧
      ∃ rows verdict, Command.Tabulated s rows verdict ∧
        (∀ spelling, Command.truthTable s spelling = .ok (Command.tableHeader s spelling :: rows)) ∧
        ∀ text, Command.readSentence text = .ok s →
          ∀ (m : Type → Type) [Monad m] [LawfulMonad m] [FileAccess m] (config : Option String),
            (Command.runModels text config : ExceptT CommandError m Outcome) = do
              let config ← Command.withConfig (Config.discover config)
              return { stdout := unlines (Command.tableHeader s config.spelling :: rows ++ ["", verdict]) } := by
  refine ⟨fun letters => ⟨length_interpretations letters, fun i m => isRow_of_getElem?⟩,
    fun letters hletters m => existsUnique_getElem? hletters,
    fun s => ⟨s.pairwise_letters, fun c => Sentence.mem_letters⟩, fun s hs => ⟨Sentence.models_eq hs, ?_⟩⟩
  obtain ⟨rows, verdict, htable, hlines, htab⟩ := Command.exists_tabulated hs
  exact ⟨rows, verdict, htab, htable, fun text htext m => Command.runModels_eq htext hlines m⟩

/-- A letter that is listed twice follows its last place; two letters have every interpretation once; and the table of
an implication has three rows that end in `T`, which is what the verdict says. -/
theorem truth_tables_complete_implication :
    (∃ m, (interpretations ['p', 'q', 'p'])[6]? = some m ∧ m.get? 'p' = some true ∧ m.get? 'q' = some false) ∧
    (∃! i : Nat, (interpretations ['q', 'p'])[i]? = some (LetterMap.ofList [('p', true), ('q', false)])) ∧
    ∃ rows verdict, rows = ["T T | T", "T F | F", "F T | T", "F F | T"] ∧ verdict = Command.countText 3 ∧
      ∀ config : Option String, (Command.runModels "p → q" config : ExceptT CommandError (StateM FileTree) Outcome) = do
        let config ← Command.withConfig (Config.discover config)
        return { stdout := unlines (Command.tableHeader (.implies (.atom 'p') (.atom 'q')) config.spelling :: rows ++
          ["", verdict]) } := by
  obtain ⟨hrows, honce, -, htable⟩ := truth_tables_complete
  refine ⟨⟨LetterMap.ofList [('p', true), ('q', false)], by decide, ?_, ?_⟩, ?_, ?_⟩
  · exact ((hrows ['p', 'q', 'p']).2 6 _ (by decide)).value 2 'p' rfl (by decide)
  · exact ((hrows ['p', 'q', 'p']).2 6 _ (by decide)).value 1 'q' rfl (by decide)
  · refine honce ['q', 'p'] (by decide) _ fun c => ?_
    show (((LetterMap.empty.insert 'p' true).insert 'q' false).get? c).isSome = true ↔ _
    rw [LetterMap.get?_insert, LetterMap.get?_insert]
    by_cases hq : c = 'q' <;> by_cases hp : c = 'p' <;> simp [hq, hp]
  · have hread : Command.readSentence "p → q" = .ok (.implies (.atom 'p') (.atom 'q')) := by decide +kernel
    obtain ⟨-, rows, verdict, htab, hshown, hrun⟩ := htable (.implies (.atom 'p') (.atom 'q')) rfl
    have hascii : Command.truthTable (.implies (.atom 'p') (.atom 'q')) .ascii =
        .ok ["p q | (p -> q)", "T T | T", "T F | F", "F T | T", "F F | T"] := by decide +kernel
    obtain ⟨-, rfl⟩ := List.cons.inj (Except.ok.inj (hascii.symm.trans (hshown .ascii)))
    have hverdict := htab.count_eq (by decide) (by decide)
    exact ⟨_, verdict, rfl, hverdict, hrun _ hread (StateM FileTree)⟩

end Deduction
