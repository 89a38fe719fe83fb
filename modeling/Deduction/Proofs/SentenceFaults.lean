import Deduction.Proofs.Failing
import Deduction.Proofs.SentenceGrammar

/-!
# Where sentences break off

A text that is not a sentence breaks off somewhere: up to that place it is the beginning of a sentence, and what comes
there is not what has to come.  `Sentence.Breaks` describes this along the sentence, with whatever has been read before
that place kept in front of it, so that nothing has to be said about the readers.  Every text starts with a sentence or
breaks off, and the readers follow: they succeed in the one case and fail in the other, at that place.

* `Sentence.decided`: a text starts with a sentence or breaks off.
* `Sentence.failsAt_readWithin`: the reader of sentences fails where the text breaks off.
* `Sentence.Breaks.exists_phrase`, `Sentence.Breaks.append`: up to there the text can be completed, and with three more
  characters it cannot be mended.
* `Sentence.diagnoses_reader`, `Sentence.diagnoses_topReader`: the same for whole texts.
* `sentence_errors_at_fault`: so errors are at the true place of failure.
-/

namespace Deduction

open Reader

namespace Sentence

/-- The characters that a sentence can start with. -/
def isStart (vars : Bool) (c : Char) : Bool := c == '!' || c == '(' || c.isLower || (c.isUpper && vars)

theorem isStart_iff {vars : Bool} {c : Char} : isStart vars c = true ↔
    c = '!' ∨ c = '(' ∨ c.isLower = true ∨ c.isUpper = true ∧ vars = true := by
  simp [isStart, or_assoc]

/-- The text is white space and a spelling of the sentence, which has schema variables only where these are allowed. -/
def Phrase (vars : Bool) (s : Sentence) (text : List Char) : Prop :=
  (∃ w spelling, text = w ++ spelling ∧ isBlank w = true ∧ s.Spelled spelling) ∧ (vars = true ∨ s.isGround = true)

/-- The text `done` is the beginning of a sentence, up to a place where the sentence cannot go on with `ahead`.  What
has to come there is a sentence, a connective or a closing parenthesis. -/
inductive Breaks (vars : Bool) : List Char → List Char → Prop
  | start {w ahead : List Char} (hw : isBlank w = true) (hs : Stops isWhitespace ahead)
      (hno : Stops (isStart vars) ahead) : Breaks vars w ahead
  | operand {w done ahead : List Char} (hw : isBlank w = true) (h : Breaks vars done ahead) :
      Breaks vars (w ++ '!' :: done) ahead
  | left {w done ahead : List Char} (hw : isBlank w = true) (h : Breaks vars done ahead) :
      Breaks vars (w ++ '(' :: done) ahead
  | connective {lhs : Sentence} {w left w' ahead : List Char} (hw : isBlank w = true) (hl : lhs.Phrase vars left)
      (hw' : isBlank w' = true) (hs : Stops isWhitespace ahead)
      (hno : ∀ op : Connective, ¬ op.symbol.toList <+: ahead) : Breaks vars (w ++ '(' :: (left ++ w')) ahead
  | right {lhs : Sentence} {op : Connective} {w left w' done ahead : List Char} (hw : isBlank w = true)
      (hl : lhs.Phrase vars left) (hw' : isBlank w' = true) (h : Breaks vars done ahead) :
      Breaks vars (w ++ '(' :: (left ++ (w' ++ (op.symbol.toList ++ done)))) ahead
  | closing {lhs rhs : Sentence} {op : Connective} {w left w' right w'' ahead : List Char} (hw : isBlank w = true)
      (hl : lhs.Phrase vars left) (hw' : isBlank w' = true) (hr : rhs.Phrase vars right) (hw'' : isBlank w'' = true)
      (hs : Stops isWhitespace ahead) (hno : Stops (· == ')') ahead) :
      Breaks vars (w ++ '(' :: (left ++ (w' ++ (op.symbol.toList ++ (right ++ w''))))) ahead

section Phrases

variable {vars : Bool} {s lhs rhs : Sentence} {op : Connective} {c : Char} {w w' w'' text left right rest : List Char}

theorem phrase_atom (hw : isBlank w = true) (hc : c.isLower = true) : (atom c).Phrase vars (w ++ [c]) :=
  ⟨⟨w, [c], rfl, hw, .atom hc⟩, Or.inr rfl⟩

theorem phrase_var (hw : isBlank w = true) (hc : c.isUpper = true) (hv : vars = true) :
    (var c).Phrase vars (w ++ [c]) :=
  ⟨⟨w, [c], rfl, hw, .var hc⟩, Or.inl hv⟩

theorem Phrase.not (hw : isBlank w = true) (h : s.Phrase vars text) : s.not.Phrase vars (w ++ '!' :: text) := by
  obtain ⟨⟨w', spelling, rfl, hw', hs⟩, hv⟩ := h
  exact ⟨⟨w, _, rfl, hw, .not hw' hs⟩, hv⟩

theorem Phrase.binary (op : Connective) (hw : isBlank w = true) (hl : lhs.Phrase vars left) (hw' : isBlank w' = true)
    (hr : rhs.Phrase vars right) (hw'' : isBlank w'' = true) : (binary op lhs rhs).Phrase vars
      (w ++ '(' :: (left ++ (w' ++ (op.symbol.toList ++ (right ++ (w'' ++ [')'])))))) := by
  obtain ⟨⟨w₁, left, rfl, hw₁, hl⟩, hvl⟩ := hl
  obtain ⟨⟨w₃, right, rfl, hw₃, hr⟩, hvr⟩ := hr
  refine ⟨⟨w, _, rfl, hw, .binary hw₁ hl hw' hw₃ hr hw''⟩, ?_⟩
  rw [isGround_binary_iff]
  exact or_and_left.mpr ⟨hvl, hvr⟩

theorem Phrase.reads_readWithin (h : s.Phrase vars text) {budget : Nat} (hb : text.length ≤ budget) :
    (readWithin vars budget).Reads text rest s := by
  obtain ⟨⟨w, spelling, rfl, hw, hs⟩, hv⟩ := h
  rw [List.length_append] at hb
  exact Sentence.reads_readWithin hs hv hw (by omega)

theorem Phrase.reads_reader (h : s.Phrase vars text) : (reader vars).Reads text rest s :=
  reads_withBudget (h.reads_readWithin (by rw [List.length_append]; omega))

end Phrases

/-! ## Texts start with a sentence or break off -/

/-- The text starts with a sentence, or it breaks off. -/
def Decided (vars : Bool) (text : List Char) : Prop :=
  (∃ s phrase rest, text = phrase ++ rest ∧ Phrase vars s phrase) ∨
    ∃ done ahead, text = done ++ ahead ∧ Breaks vars done ahead

section Decided

variable {vars : Bool} {w tail : List Char}

theorem exists_blank_append (text : List Char) :
    ∃ w rest, text = w ++ rest ∧ isBlank w = true ∧ Stops isWhitespace rest := by
  refine ⟨text.takeWhile isWhitespace, text.dropWhile isWhitespace, List.takeWhile_append_dropWhile.symm,
    List.all_takeWhile, fun c hc => ?_⟩
  have hhead := List.head?_dropWhile_not isWhitespace text
  rw [Option.mem_def.mp hc] at hhead
  simpa using hhead

theorem decided_negation (hw : isBlank w = true) (h : Decided vars tail) : Decided vars (w ++ '!' :: tail) := by
  rcases h with ⟨s, phrase, rest, rfl, h⟩ | ⟨done, ahead, rfl, h⟩
  · exact Or.inl ⟨s.not, w ++ '!' :: phrase, rest, by simp, h.not hw⟩
  · exact Or.inr ⟨w ++ '!' :: done, ahead, by simp, .operand hw h⟩

/-- After an opening parenthesis there are two sentences to come, with a connective between them. -/
theorem decided_opening (hw : isBlank w = true) (ih : ∀ text, text.length ≤ tail.length → Decided vars text) :
    Decided vars (w ++ '(' :: tail) := by
  rcases ih tail (Nat.le_refl _) with ⟨lhs, left, rest, rfl, hl⟩ | ⟨done, ahead, rfl, h⟩
  swap
  · exact Or.inr ⟨w ++ '(' :: done, ahead, by simp, .left hw h⟩
  obtain ⟨w', rest, rfl, hw', hs⟩ := exists_blank_append rest
  by_cases hop : ∃ op : Connective, op.symbol.toList <+: rest
  swap
  · refine Or.inr ⟨w ++ '(' :: (left ++ w'), rest, by simp, .connective hw hl hw' hs fun op hp => hop ⟨op, hp⟩⟩
  obtain ⟨op, rest, rfl⟩ := hop
  rcases ih rest (by simp only [List.length_append]; omega) with ⟨rhs, right, rest, rfl, hr⟩ | ⟨done, ahead, rfl, h⟩
  swap
  · exact Or.inr ⟨w ++ '(' :: (left ++ (w' ++ (op.symbol.toList ++ done))), ahead, by simp, .right hw hl hw' h⟩
  obtain ⟨w'', rest, rfl, hw'', hs⟩ := exists_blank_append rest
  by_cases hno : Stops (· == ')') rest
  · exact Or.inr ⟨w ++ '(' :: (left ++ (w' ++ (op.symbol.toList ++ (right ++ w'')))), rest, by simp,
      .closing hw hl hw' hr hw'' hs hno⟩
  · obtain ⟨rest, rfl⟩ : ∃ rest', rest = ')' :: rest' := by
      cases rest with
      | nil => exact absurd stops_nil hno
      | cons c rest => exact ⟨rest, by simpa using hno⟩
    exact Or.inl ⟨_, _, rest, by simp, Phrase.binary op hw hl hw' hr hw''⟩

/-- **Every text starts with a sentence or breaks off.** -/
theorem decided (vars : Bool) (text : List Char) : Decided vars text := by
  induction hn : text.length using Nat.strongRecOn generalizing text with
  | ind n ih =>
    obtain ⟨w, rest, rfl, hw, hs⟩ := exists_blank_append text
    rw [List.length_append] at hn
    by_cases hno : Stops (isStart vars) rest
    · exact Or.inr ⟨w, rest, rfl, .start hw hs hno⟩
    cases rest with
    | nil => exact absurd stops_nil hno
    | cons c tail =>
      rw [List.length_cons] at hn
      have hshorter : ∀ text, text.length ≤ tail.length → Decided vars text := fun text hle =>
        ih text.length (by omega) text rfl
      rw [stops_cons, Bool.not_eq_false, isStart_iff] at hno
      rcases hno with rfl | rfl | hc | ⟨hc, hv⟩
      · exact decided_negation hw (hshorter tail (Nat.le_refl _))
      · exact decided_opening hw hshorter
      · exact Or.inl ⟨_, w ++ [c], tail, by simp, phrase_atom hw hc⟩
      · exact Or.inl ⟨_, w ++ [c], tail, by simp, phrase_var hw hc hv⟩

end Decided

/-! ## Readers fail where a text breaks off -/

section Fails

variable {vars : Bool} {done ahead rest : List Char}

theorem failsAt_readConnectiveOf {ops : List Connective} (h : ∀ op ∈ ops, ¬ op.symbol.toList <+: rest) :
    (readConnectiveOf ops).FailsAt [] rest := by
  induction ops with
  | nil => exact failsAt_fail.expecting _
  | cons op ops ih =>
    refine (refuses_expectText (h op List.mem_cons_self)).optional.bind_nil_failsAt ?_
    exact ih fun op' hop' => h op' (List.mem_cons_of_mem _ hop')

/-- No sentence starts here. -/
theorem failsAt_start {w : List Char} {budget : Nat} (hw : isBlank w = true) (hs : Stops isWhitespace ahead)
    (hno : Stops (isStart vars) ahead) : (readWithin vars (budget + 1)).FailsAt w ahead := by
  rw [← List.append_nil w]
  unfold readWithin
  refine Reads.bind_failsAt (reads_skipWhitespace hw hs) (reads_peek.bind_nil_failsAt ?_)
  cases ahead with
  | nil => exact failsAt_fail.expecting _
  | cons c ahead =>
    have hc : ¬ (c = '!' ∨ c = '(' ∨ c.isLower = true ∨ c.isUpper = true ∧ vars = true) := by
      rw [← isStart_iff, Bool.not_eq_true]
      exact stops_cons.mp hno
    simp only [not_or] at hc
    obtain ⟨hnegation, hopening, hlower, hupper⟩ := hc
    simp only [List.nil_append, List.head?_cons]
    rw [if_neg hlower, if_neg (by rwa [Bool.and_eq_true])]
    exact failsAt_fail.expecting _

/-- A text that breaks off after an opening parenthesis. -/
theorem failsAt_opening {w : List Char} {budget : Nat} (hw : isBlank w = true) (h : (do
      let lhs ← readWithin vars budget
      let _ ← skipWhitespace
      let op ← readConnective
      let rhs ← readWithin vars budget
      let _ ← skipWhitespace
      let _ ← expectChar ')'
      return binary op lhs rhs : Reader Sentence).FailsAt done ahead) :
    (readWithin vars (budget + 1)).FailsAt (w ++ '(' :: done) ahead := by
  unfold readWithin
  refine Reads.bind_failsAt (reads_skipWhitespace hw (stops_cons.mpr (by decide))) (reads_peek.bind_nil_failsAt ?_)
  exact Reads.bind_failsAt (t := ['(']) reads_pop h.commit

/-- **The reader of sentences fails where a text breaks off.** -/
theorem failsAt_readWithin (h : Breaks vars done ahead) {budget : Nat} (hb : done.length < budget) :
    (readWithin vars budget).FailsAt done ahead := by
  obtain ⟨b, rfl⟩ : ∃ b, budget = b + 1 := ⟨budget - 1, by omega⟩
  induction h generalizing b with
  | start hw hs hno => exact failsAt_start hw hs hno
  | @operand w done ahead hw h ih =>
    simp only [List.length_append, List.length_cons] at hb
    obtain ⟨b', rfl⟩ : ∃ b', b = b' + 1 := ⟨b - 1, by omega⟩
    unfold readWithin
    refine Reads.bind_failsAt (reads_skipWhitespace hw (stops_cons.mpr (by decide))) (reads_peek.bind_nil_failsAt ?_)
    exact Reads.bind_failsAt (t := ['!']) reads_pop (ih b' (by omega)).commit.bind
  | @left w done ahead hw h ih =>
    simp only [List.length_append, List.length_cons] at hb
    obtain ⟨b', rfl⟩ : ∃ b', b = b' + 1 := ⟨b - 1, by omega⟩
    exact failsAt_opening hw (ih b' (by omega)).bind
  | @connective lhs w left w' ahead hw hl hw' hs hno =>
    simp only [List.length_append, List.length_cons] at hb
    have hop : (readConnectiveOf Connective.all).FailsAt [] ahead := failsAt_readConnectiveOf fun op _ => hno op
    rw [← List.append_nil w']
    refine failsAt_opening hw (Reads.bind_failsAt (hl.reads_readWithin (by omega)) ?_)
    exact Reads.bind_failsAt (reads_skipWhitespace hw' hs) hop.bind
  | @right lhs op w left w' done ahead hw hl hw' h ih =>
    simp only [List.length_append, List.length_cons] at hb
    obtain ⟨b', rfl⟩ : ∃ b', b = b' + 1 := ⟨b - 1, by omega⟩
    have hstops : Stops isWhitespace (op.symbol.toList ++ done ++ ahead) := by
      rw [List.append_assoc]
      exact stops_symbol op
    refine failsAt_opening hw (Reads.bind_failsAt (hl.reads_readWithin (by omega)) ?_)
    refine Reads.bind_failsAt (reads_skipWhitespace hw' hstops) ?_
    exact Reads.bind_failsAt (reads_readConnective op) (ih b' (by omega)).bind
  | @closing lhs rhs op w left w' right w'' ahead hw hl hw' hr hw'' hs hno =>
    simp only [List.length_append, List.length_cons] at hb
    have hstops : Stops isWhitespace (op.symbol.toList ++ (right ++ (w'' ++ [])) ++ ahead) := by
      rw [List.append_assoc]
      exact stops_symbol op
    rw [← List.append_nil w'']
    refine failsAt_opening hw (Reads.bind_failsAt (hl.reads_readWithin (by omega)) ?_)
    refine Reads.bind_failsAt (reads_skipWhitespace hw' hstops) (Reads.bind_failsAt (reads_readConnective op) ?_)
    refine Reads.bind_failsAt (hr.reads_readWithin (by omega)) ?_
    exact Reads.bind_failsAt (reads_skipWhitespace hw'' hs) (failsAt_expectChar hno).bind

theorem failsAt_reader (h : Breaks vars done ahead) : (reader vars).FailsAt done ahead :=
  failsAt_withBudget (failsAt_readWithin h (by rw [List.length_append]; omega))

end Fails

/-! ## What is missing, and what cannot be mended -/

section Extensions

variable {vars : Bool} {done ahead : List Char}

theorem stops_append_of_ne_nil {p : Char → Bool} (h : Stops p ahead) (hne : ahead ≠ []) (more : List Char) :
    Stops p (ahead ++ more) := by
  cases ahead with
  | nil => exact absurd rfl hne
  | cons c ahead => exact stops_cons.mpr (stops_cons.mp h)

/-- No connective is longer than three characters. -/
theorem not_symbol_prefix_append_of_length {op : Connective} (h : ¬ op.symbol.toList <+: ahead)
    (hlen : 3 ≤ ahead.length) (more : List Char) : ¬ op.symbol.toList <+: ahead ++ more := by
  intro hp
  have hop : op.symbol.toList.length ≤ 3 := by cases op <;> decide
  exact h (List.prefix_of_prefix_length_le hp ⟨more, rfl⟩ (by omega))

/-- **Three characters tell that a text cannot go on.** -/
theorem Breaks.append (h : Breaks vars done ahead) (hlen : 3 ≤ ahead.length) (more : List Char) :
    Breaks vars done (ahead ++ more) := by
  have hne : ahead ≠ [] := List.ne_nil_of_length_pos (by omega)
  induction h with
  | start hw hs hno =>
    exact .start hw (stops_append_of_ne_nil hs hne more) (stops_append_of_ne_nil hno hne more)
  | operand hw _ ih => exact .operand hw (ih hlen hne)
  | left hw _ ih => exact .left hw (ih hlen hne)
  | connective hw hl hw' hs hno =>
    exact .connective hw hl hw' (stops_append_of_ne_nil hs hne more) fun op =>
      not_symbol_prefix_append_of_length (hno op) hlen more
  | right hw hl hw' _ ih => exact .right hw hl hw' (ih hlen hne)
  | closing hw hl hw' hr hw'' hs hno =>
    exact .closing hw hl hw' hr hw'' (stops_append_of_ne_nil hs hne more) (stops_append_of_ne_nil hno hne more)

/-- **The beginning of a sentence can be completed.** -/
theorem Breaks.exists_phrase (h : Breaks vars done ahead) : ∃ more s, Phrase vars s (done ++ more) := by
  -- the letter `p` is a sentence, wherever one has to come
  have hp : ∀ w, isBlank w = true → (atom 'p').Phrase vars (w ++ ['p']) := fun w hw => phrase_atom hw (by decide)
  induction h with
  | start hw _ _ => exact ⟨['p'], _, hp _ hw⟩
  | operand hw _ ih =>
    obtain ⟨more, s, hs⟩ := ih
    exact ⟨more, s.not, by simpa using hs.not hw⟩
  | left hw _ ih =>
    obtain ⟨more, s, hs⟩ := ih
    have hall := Phrase.binary .and hw hs isBlank_nil (hp [] rfl) isBlank_nil
    exact ⟨more ++ ['&', 'p', ')'], _, by simpa [Connective.symbol] using hall⟩
  | connective hw hl hw' _ _ =>
    have hall := Phrase.binary .and hw hl hw' (hp [] rfl) isBlank_nil
    exact ⟨['&', 'p', ')'], _, by simpa [Connective.symbol] using hall⟩
  | @right _ op _ _ _ _ _ hw hl hw' _ ih =>
    obtain ⟨more, s, hs⟩ := ih
    have hall := Phrase.binary op hw hl hw' hs isBlank_nil
    exact ⟨more ++ [')'], _, by simpa using hall⟩
  | @closing _ _ op _ _ _ _ _ _ hw hl hw' hr hw'' _ _ =>
    have hall := Phrase.binary op hw hl hw' hr hw''
    exact ⟨[')'], _, by simpa using hall⟩

end Extensions

/-! ## Whole texts -/

/-- The text is the beginning of a sentence up to `done`, or a whole sentence and then something else. -/
inductive BreaksOff (vars : Bool) : List Char → List Char → Prop
  | within {done ahead : List Char} (h : Breaks vars done ahead) : BreaksOff vars done ahead
  | after {s : Sentence} {text w ahead : List Char} (h : s.Phrase vars text) (hw : isBlank w = true)
      (hs : Stops isWhitespace ahead) (hne : ahead ≠ []) : BreaksOff vars (text ++ w) ahead

/-- The same where the outermost parentheses may be missing: after a whole sentence a connective makes it go on. -/
inductive BreaksOffTop (vars : Bool) : List Char → List Char → Prop
  | within {done ahead : List Char} (h : Breaks vars done ahead) : BreaksOffTop vars done ahead
  | after {s : Sentence} {text w ahead : List Char} (h : s.Phrase vars text) (hw : isBlank w = true)
      (hs : Stops isWhitespace ahead) (hne : ahead ≠ []) (hno : ∀ op : Connective, ¬ op.symbol.toList <+: ahead) :
      BreaksOffTop vars (text ++ w) ahead
  | withinRight {lhs : Sentence} {op : Connective} {left w done ahead : List Char} (hl : lhs.Phrase vars left)
      (hw : isBlank w = true) (h : Breaks vars done ahead) :
      BreaksOffTop vars (left ++ (w ++ op.symbol.toList ++ done)) ahead
  | afterRight {lhs rhs : Sentence} {op : Connective} {left w right w' ahead : List Char} (hl : lhs.Phrase vars left)
      (hw : isBlank w = true) (hr : rhs.Phrase vars right) (hw' : isBlank w' = true) (hs : Stops isWhitespace ahead)
      (hne : ahead ≠ []) : BreaksOffTop vars (left ++ (w ++ op.symbol.toList ++ right) ++ w') ahead

section Whole

variable {vars : Bool} {s lhs rhs : Sentence} {text left right w w' done ahead : List Char}

theorem Phrase.readAll_reader (h : s.Phrase vars text) (hw : isBlank w = true) :
    (reader vars).readAll (text ++ w) = .ok s := readAll_of_reads h.reads_reader hw

theorem Phrase.readAll_topReader (h : s.Phrase vars text) (hw : isBlank w = true) :
    (topReader vars).readAll (text ++ w) = .ok s := by
  have hread := reads_topReader_alone (fun _ => h.reads_reader) hw stops_nil fun op => by cases op <;> decide
  rw [List.append_nil] at hread
  exact readAll_of_reads hread hw

theorem Phrase.readAll_topReader_bare (op : Connective) (hl : lhs.Phrase vars left) (hw : isBlank w = true)
    (hr : rhs.Phrase vars right) (hw' : isBlank w' = true) :
    (topReader vars).readAll (left ++ (w ++ op.symbol.toList ++ right) ++ w') = .ok (.binary op lhs rhs) :=
  readAll_of_reads (reads_topReader_bare op (fun _ => hl.reads_reader) hw hr.reads_reader) hw'

theorem diagnoses_reader (vars : Bool) : (reader vars).Diagnoses (BreaksOff vars) where
  total text := by
    rcases decided vars text with ⟨s, phrase, rest, rfl, hs⟩ | ⟨done, ahead, rfl, h⟩
    · obtain ⟨w, ahead, rfl, hw, hstops⟩ := exists_blank_append rest
      by_cases hne : ahead = []
      · subst hne
        rw [List.append_nil]
        exact Or.inl ⟨s, hs.readAll_reader hw⟩
      · exact Or.inr ⟨phrase ++ w, ahead, (List.append_assoc _ _ _).symm, .after hs hw hstops hne⟩
    · exact Or.inr ⟨done, ahead, rfl, .within h⟩
  rejects h := by
    cases h with
    | within h => exact (failsAt_reader h).rejects
    | after h hw hs hne => exact h.reads_reader.rejects hw hs hne
  viable h := by
    cases h with
    | within h =>
      obtain ⟨more, s, hs⟩ := h.exists_phrase
      have hread := hs.readAll_reader isBlank_nil
      rw [List.append_nil] at hread
      exact ⟨more, s, hread⟩
    | @after s text w ahead h hw _ _ =>
      exact ⟨[], s, by rw [List.append_nil]; exact h.readAll_reader hw⟩
  settled h hlen more := by
    cases h with
    | within h => exact .within (h.append hlen more)
    | after h hw hs hne => exact .after h hw (stops_append_of_ne_nil hs hne more) (by simp [hne])

theorem failsAt_topReader_right {op : Connective} (hl : lhs.Phrase vars left) (hw : isBlank w = true)
    (h : Breaks vars done ahead) : (topReader vars).FailsAt (left ++ (w ++ op.symbol.toList ++ done)) ahead :=
  Reads.bind_failsAt hl.reads_reader
    (Reads.bind_failsAt (reads_attempt_readConnective op hw).optional (failsAt_reader h).commit.bind)

theorem diagnoses_topReader (vars : Bool) : (topReader vars).Diagnoses (BreaksOffTop vars) where
  total text := by
    rcases decided vars text with ⟨s, phrase, rest, rfl, hs⟩ | ⟨done, ahead, rfl, h⟩
    swap
    · exact Or.inr ⟨done, ahead, rfl, .within h⟩
    obtain ⟨w, ahead, rfl, hw, hstops⟩ := exists_blank_append rest
    by_cases hne : ahead = []
    · subst hne
      rw [List.append_nil]
      exact Or.inl ⟨s, hs.readAll_topReader hw⟩
    by_cases hop : ∃ op : Connective, op.symbol.toList <+: ahead
    swap
    · exact Or.inr ⟨phrase ++ w, ahead, by simp, .after hs hw hstops hne fun op hp => hop ⟨op, hp⟩⟩
    -- a connective makes the sentence go on
    obtain ⟨op, rest, rfl⟩ := hop
    rcases decided vars rest with ⟨rhs, right, rest, rfl, hr⟩ | ⟨done, ahead, rfl, h⟩
    swap
    · exact Or.inr ⟨phrase ++ (w ++ op.symbol.toList ++ done), ahead, by simp, .withinRight hs hw h⟩
    obtain ⟨w', ahead, rfl, hw', hstops⟩ := exists_blank_append rest
    by_cases hne : ahead = []
    · subst hne
      have hread := hs.readAll_topReader_bare op hw hr hw'
      exact Or.inl ⟨_, by simpa using hread⟩
    · refine Or.inr ⟨phrase ++ (w ++ op.symbol.toList ++ right) ++ w', ahead, by simp, ?_⟩
      exact .afterRight hs hw hr hw' hstops hne
  rejects h := by
    cases h with
    | within h => exact (failsAt_reader h).bind.rejects
    | after h hw hs hne hno => exact (reads_topReader_alone (fun _ => h.reads_reader) hw hs hno).rejects hw hs hne
    | withinRight hl hw h => exact (failsAt_topReader_right hl hw h).rejects
    | afterRight hl hw hr hw' hs hne =>
      exact (reads_topReader_bare _ (fun _ => hl.reads_reader) hw hr.reads_reader).rejects hw' hs hne
  viable h := by
    cases h with
    | within h =>
      obtain ⟨more, s, hs⟩ := h.exists_phrase
      have hread := hs.readAll_topReader isBlank_nil
      rw [List.append_nil] at hread
      exact ⟨more, s, hread⟩
    | @after s text w ahead h hw _ _ _ =>
      exact ⟨[], s, by rw [List.append_nil]; exact h.readAll_topReader hw⟩
    | @withinRight lhs op left w done ahead hl hw h =>
      obtain ⟨more, rhs, hr⟩ := h.exists_phrase
      have hread := hl.readAll_topReader_bare op hw hr isBlank_nil
      exact ⟨more, _, by simpa using hread⟩
    | @afterRight lhs rhs op left w right w' ahead hl hw hr hw' _ _ =>
      exact ⟨[], _, by rw [List.append_nil]; exact hl.readAll_topReader_bare op hw hr hw'⟩
  settled h hlen more := by
    cases h with
    | within h => exact .within (h.append hlen more)
    | after h hw hs hne hno =>
      exact .after h hw (stops_append_of_ne_nil hs hne more) (by simp [hne]) fun op =>
        not_symbol_prefix_append_of_length (hno op) hlen more
    | withinRight hl hw h => exact .withinRight hl hw (h.append hlen more)
    | afterRight hl hw hr hw' hs hne =>
      exact .afterRight hl hw hr hw' (stops_append_of_ne_nil hs hne more) (by simp [hne])

end Whole

end Sentence

/-- **Errors of sentences are at the true place of failure.**  Whichever way a text is read as a sentence, the place of
an error lies between two characters of the text.  What comes before it can be completed to a text that is read, and if
at least three characters come after it, then no text that starts with this one is read.  Three, since a connective may
be cut short by the end of the text. -/
theorem sentence_errors_at_fault {read : String → Except ReadError Sentence} {text : String} {e : ReadError}
    (hread : read = Sentence.parse ∨ read = Sentence.parseTop ∨ read = Sentence.parsePattern)
    (h : read text = .error e) :
    ∃ done ahead, text.toList = done ++ ahead ∧ e.mismatch.place = byteLength done ∧
      (∃ more s, read (String.ofList (done ++ more)) = .ok s) ∧
      (3 ≤ ahead.length → ∀ more s, read (text ++ more) ≠ .ok s) := by
  -- each of them reads the characters of the text with a reader whose errors are known
  obtain ⟨m, B, hB, hm⟩ : ∃ m B, Reader.Diagnoses m B ∧ ∀ text : String, read text = m.readAll text.toList := by
    rcases hread with rfl | rfl | rfl
    · exact ⟨_, _, Sentence.diagnoses_reader false, fun _ => rfl⟩
    · exact ⟨_, _, Sentence.diagnoses_topReader false, fun _ => rfl⟩
    · exact ⟨_, _, Sentence.diagnoses_reader true, fun _ => rfl⟩
  rw [hm] at h
  obtain ⟨done, ahead, htext, hplace, hviable, hsettled⟩ := hB.error_place h
  simp only [hm, String.toList_ofList, String.toList_append]
  exact ⟨done, ahead, htext, hplace, hviable, fun hlen more => hsettled hlen more.toList⟩

/-- An arrow that lacks its point.  At the end of the text it can still become one, but not once something else follows
it. -/
theorem sentence_errors_at_fault_half_arrow :
    (∃ e, Sentence.parseTop "p <- q" = .error e ∧ e.mismatch.place = 2 ∧
      ∀ more s, Sentence.parseTop ("p <- q" ++ more) ≠ .ok s) ∧
    ∃ e s, Sentence.parseTop "p <-" = .error e ∧ e.mismatch.place = 2 ∧
      Sentence.parseTop ("p <-" ++ "> q") = .ok s := by
  have hcut : Sentence.parseTop "p <- q" = .error ⟨false, 2, [.description "end of line"]⟩ := by decide +kernel
  have hend : Sentence.parseTop "p <-" = .error ⟨false, 2, [.description "end of line"]⟩ := by decide +kernel
  have hmended : Sentence.parseTop ("p <-" ++ "> q") = .ok (.binary .equivalent (.atom 'p') (.atom 'q')) := by
    decide +kernel
  refine ⟨⟨_, hcut, rfl, ?_⟩, _, _, hend, rfl, hmended⟩
  obtain ⟨done, ahead, htext, hplace, -, hsettled⟩ := sentence_errors_at_fault (Or.inr (Or.inl rfl)) hcut
  have hlen : 6 = done.length + ahead.length := by
    rw [← List.length_append, ← htext]
    decide
  have hdone : done.length ≤ 2 := by
    have hle := length_le_byteLength done
    rwa [← hplace] at hle
  exact hsettled (by omega)

end Deduction
