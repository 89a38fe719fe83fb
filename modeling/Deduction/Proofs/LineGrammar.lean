import Deduction.Rule.Definition
import Deduction.Proofs.SentenceGrammar

/-!
# The grammar of proof lines

A line is a run of bars and then either a dash, or a number, a sentence and a justification with white space between
them.  The reader goes through a line without looking back, except at three places: a dash after the bars makes a
separator, a connective after a sentence makes the sentence go on, and a dash after a cited number makes a range.  At
each of them the next characters decide, so the reader loses no line that the grammar has; a rule name may start like a
connective but never goes on like one (`Line.not_symbol_prefix_append`).

* `Line.Spelled`: the texts that are a given line.
* `Line.reads_reader`, `Line.takes_reader`: the reader of lines takes these texts, all and only.
* `Line.parse_eq_ok_iff`: so lines are read exactly.
* `line_grammar_exact`: this, and that no text is two lines.
-/

namespace Deduction

open Reader

/-! ## The grammar -/

/-- The text is the decimal form, maybe with zeros in front, of a number from one up that can be read.  The number `n`
counts from zero. -/
structure Numeral (n : Nat) (text : List Char) : Prop where
  digits : ∀ c ∈ text, c.isDigit = true
  ne_nil : text ≠ []
  value : Nat.ofDigitChars 10 text 0 = n + 1
  bound : n + 1 < numberBound

/-- The text is a citation, with white space around its parts. -/
inductive Citation.Spelled : Citation → List Char → Prop
  | line {number : Nat} {w w' text : List Char} (hw : isBlank w = true) (h : Numeral number text)
      (hw' : isBlank w' = true) : Spelled (.line number) (w ++ (text ++ w'))
  | range {first last : Nat} {w₁ w₂ w₃ w₄ text text' : List Char} (hw₁ : isBlank w₁ = true) (h : Numeral first text)
      (hw₂ : isBlank w₂ = true) (hw₃ : isBlank w₃ = true) (h' : Numeral last text') (hw₄ : isBlank w₄ = true) :
      Spelled (.range first last) (w₁ ++ (text ++ (w₂ ++ '-' :: (w₃ ++ (text' ++ w₄)))))

/-- The text is a list of citations with commas between them, up to the closing parenthesis. -/
inductive Citation.SpelledList : List Citation → List Char → Prop
  | last {c : Citation} {text : List Char} (h : c.Spelled text) : SpelledList [c] (text ++ [')'])
  | cons {c : Citation} {cs : List Citation} {text more : List Char} (h : c.Spelled text) (hcs : SpelledList cs more) :
      SpelledList (c :: cs) (text ++ ',' :: more)

/-- The text is the name of a rule, and its citations in parentheses right after it.  A premise and an assumption cite
nothing. -/
inductive Justification.Spelled : Justification → List Char → Prop
  | plain {name : String} (hname : isRuleName name = true) : Spelled ⟨name, []⟩ name.toList
  | citing {name : String} {cs : List Citation} {text : List Char} (hname : isRuleName name = true)
      (hfree : isReservedName name = false) (h : Citation.SpelledList cs text) :
      Spelled ⟨name, cs⟩ (name.toList ++ '(' :: text)

/-- The text is a line of a proof, the one at `source`. -/
inductive Line.Spelled (source : Nat) : Line → List Char → Prop
  | separator {depth : Nat} {w w' : List Char} (hw : isBlank w = true) (hd : 1 ≤ depth) (hw' : isBlank w' = true) :
      Spelled source (.separator depth) (w ++ (List.replicate depth '|' ++ '-' :: w'))
  | step {number depth : Nat} {sentence : Sentence} {reason : Justification}
      {w₁ w₂ w₃ w₄ w₅ numeral spelling justification : List Char}
      (hw₁ : isBlank w₁ = true) (hd : 1 ≤ depth) (hw₂ : isBlank w₂ = true) (hn : Numeral number numeral)
      (hw₃ : isBlank w₃ = true) (hne₃ : w₃ ≠ []) (hs : sentence.SpelledTop spelling) (hg : sentence.isGround = true)
      (hw₄ : isBlank w₄ = true) (hne₄ : w₄ ≠ []) (hr : reason.Spelled justification) (hw₅ : isBlank w₅ = true) :
      Spelled source (.step { source, number, depth, sentence, reason })
        (w₁ ++ (List.replicate depth '|' ++
          (w₂ ++ (numeral ++ (w₃ ++ (spelling ++ (w₄ ++ (justification ++ w₅))))))))

/-! ## First characters -/

section Characters

variable {p : Char → Bool} {c : Char} {w rest text : List Char}

theorem isWhitespace_of_isDigit (h : c.isDigit = true) : isWhitespace c = false := by
  have hc := bounds_of_isDigit h
  exact isWhitespace_of_visible (by omega) (by omega)

/-- White space, or white space in front of something, whatever is excluded there. -/
theorem stops_blank_append (hw : isBlank w = true) (hp : ∀ c, isWhitespace c = true → p c = false)
    (hr : Stops p rest) : Stops p (w ++ rest) := by
  cases w with
  | nil => exact hr
  | cons c w => exact stops_cons.mpr (hp c (isBlank_iff.mp hw c List.mem_cons_self))

/-- A visible character is not white space. -/
theorem ne_of_isWhitespace {x : Char} (hx : isWhitespace x = false) (c : Char) (hc : isWhitespace c = true) :
    (c == x) = false := by
  rw [beq_eq_false_iff_ne]
  rintro rfl
  rw [hx] at hc
  cases hc

theorem isDigit_of_isWhitespace (c : Char) (hc : isWhitespace c = true) : c.isDigit = false := by
  cases hd : c.isDigit with
  | false => rfl
  | true =>
    rw [isWhitespace_of_isDigit hd] at hc
    cases hc

theorem isRuleChar_of_isWhitespace (c : Char) (hc : isWhitespace c = true) : isRuleChar c = false := by
  cases hr : isRuleChar c with
  | false => rfl
  | true =>
    rw [isWhitespace_of_isRuleChar hr] at hc
    cases hc

/-- A number starts with a digit, whatever is excluded there. -/
theorem Numeral.stops {n : Nat} (h : Numeral n text) (hp : ∀ c, c.isDigit = true → p c = false) :
    Stops p (text ++ rest) := stops_append h.ne_nil fun c hc => hp c (h.digits c hc)

end Characters

/-! ## Numbers and bars -/

section Numbers

variable {n depth : Nat} {text rest : List Char}

theorem Reader.reads_expectNumber (h : Numeral n text) (hr : Stops Char.isDigit rest) :
    expectNumber.Reads text rest (n + 1) := by
  unfold expectNumber
  refine reads_checkpoint_bind fun start pos => ?_
  simp only [Bind.bind, reads_takeWhile h.digits hr pos, h.value, ne_eq, h.ne_nil, not_false_eq_true, h.bound, and_self]
  rfl

theorem Reader.takes_expectNumber : expectNumber.Takes rest fun text n => text ≠ [] ∧
    (∀ c ∈ text, c.isDigit = true) ∧ Nat.ofDigitChars 10 text 0 = n ∧ n < numberBound := by
  unfold expectNumber
  refine takes_checkpoint_bind fun start => (takes_takeWhile _).bind fun text _ digits _ hdigits => ?_
  obtain ⟨rfl, hall⟩ := hdigits
  intro pos n c h
  by_cases hvalue : digits ≠ [] ∧ Nat.ofDigitChars 10 digits 0 < numberBound
  · obtain ⟨hne, hlt⟩ := hvalue
    simp only [ne_eq, hne, not_false_eq_true, hlt, and_self] at h
    cases h
    exact ⟨[], rfl, by rwa [List.append_nil], by rwa [List.append_nil], by rw [List.append_nil], hlt⟩
  · simp only [hvalue] at h
    cases h

namespace Line

theorem reads_readNumber (h : Numeral n text) (hr : Stops Char.isDigit rest) : readNumber.Reads text rest n :=
  reads_checkpoint_bind fun _ => (reads_expectNumber h hr).bind_last reads_pure

theorem takes_readNumber : readNumber.Takes rest fun text n => Numeral n text := by
  unfold readNumber
  refine takes_checkpoint_bind fun start => takes_expectNumber.bind fun text _ value _ hvalue => ?_
  cases value with
  | zero => exact (yields_bind_of_forall fun _ => yields_fail.expecting _).takes
  | succ n =>
    obtain ⟨hne, hdigits, hvalue, hbound⟩ := hvalue
    refine takes_pure ?_
    rw [List.append_nil]
    exact ⟨hdigits, hne, hvalue, hbound⟩

theorem stops_replicate_bar (hd : 1 ≤ depth) : Stops isWhitespace (List.replicate depth '|' ++ rest) := by
  obtain ⟨n, rfl⟩ : ∃ n, depth = n + 1 := ⟨depth - 1, by omega⟩
  exact stops_cons.mpr (by decide)

theorem reads_readBars (hd : 1 ≤ depth) (hr : Stops (· == '|') rest) :
    readBars.Reads (List.replicate depth '|') rest depth := by
  have hbars : (takeWhile (· == '|')).Reads (List.replicate depth '|') rest (List.replicate depth '|') :=
    reads_takeWhile (fun c hc => by rw [List.eq_of_mem_replicate hc]; decide) hr
  have hsome : (List.replicate depth '|').isEmpty = false := by
    obtain ⟨n, rfl⟩ : ∃ n, depth = n + 1 := ⟨depth - 1, by omega⟩
    rfl
  unfold readBars
  refine hbars.bind_last ?_
  rw [hsome, List.length_replicate]
  exact reads_pure

theorem takes_readBars : readBars.Takes rest fun text depth => text = List.replicate depth '|' ∧ 1 ≤ depth := by
  unfold readBars
  refine (takes_takeWhile _).bind fun text _ bars _ hbars => ?_
  obtain ⟨rfl, hall⟩ := hbars
  split
  next => exact (yields_fail.expecting _).takes
  next hne =>
    refine takes_pure ⟨?_, ?_⟩
    · rw [List.append_nil]
      exact List.eq_replicate_iff.mpr ⟨rfl, fun c hc => beq_iff_eq.mp (hall c hc)⟩
    · exact List.length_pos_iff.mpr (by simpa using hne)

end Line

end Numbers

/-! ## Citations -/

namespace Line

section Citations

variable {c : Citation} {cs : List Citation} {text rest : List Char}

/-- A citation is followed by the next one or by the end of the list.  White space after a range is left to what comes
after it. -/
theorem reads_readCitation (h : c.Spelled text) {x : Char} (hx : x = ',' ∨ x = ')') :
    ∃ taken w, text = taken ++ w ∧ isBlank w = true ∧ ∀ rest, readCitation.Reads taken (w ++ x :: rest) c := by
  have hvisible : isWhitespace x = false ∧ x.isDigit = false ∧ (x == '-') = false := by
    rcases hx with rfl | rfl <;> decide
  obtain ⟨hspace, hdigit, hdash⟩ := hvisible
  unfold readCitation
  cases h with
  | @line number w w' text hw h hw' =>
    refine ⟨w ++ (text ++ w'), [], (List.append_nil _).symm, rfl, fun rest => ?_⟩
    have hend : Stops Char.isDigit (w' ++ ([] ++ x :: rest)) :=
      stops_blank_append hw' isDigit_of_isWhitespace (stops_cons.mpr hdigit)
    refine Reads.bind (reads_skipWhitespace hw ?_) (Reads.bind (reads_readNumber h hend) ?_)
    · rw [List.append_assoc]
      exact h.stops fun _ => isWhitespace_of_isDigit
    refine (reads_skipWhitespace hw' (stops_cons.mpr hspace)).bind_last ?_
    exact (refuses_expectChar (stops_cons.mpr hdash)).optional.bind_nil reads_pure
  | @range first last w₁ w₂ w₃ w₄ text text' hw₁ h hw₂ hw₃ h' hw₄ =>
    refine ⟨w₁ ++ (text ++ (w₂ ++ (['-'] ++ (w₃ ++ text')))), w₄, by simp, hw₄, fun rest => ?_⟩
    have hmid : ∀ after, Stops Char.isDigit (w₂ ++ (['-'] ++ (w₃ ++ text')) ++ after) := fun after => by
      rw [List.append_assoc]
      exact stops_blank_append hw₂ isDigit_of_isWhitespace (stops_cons.mpr (by decide))
    have hend : Stops Char.isDigit (w₄ ++ x :: rest) :=
      stops_blank_append hw₄ isDigit_of_isWhitespace (stops_cons.mpr hdigit)
    refine Reads.bind (reads_skipWhitespace hw₁ ?_) (Reads.bind (reads_readNumber h (hmid _)) ?_)
    · rw [List.append_assoc]
      exact h.stops fun _ => isWhitespace_of_isDigit
    refine Reads.bind (reads_skipWhitespace hw₂ (stops_cons.mpr (by decide))) ?_
    refine Reads.bind reads_expectChar.optional (Reads.bind (reads_skipWhitespace hw₃ ?_) ?_)
    · exact h'.stops fun _ => isWhitespace_of_isDigit
    exact (reads_readNumber h' hend).bind_last reads_pure

theorem takes_readCitation :
    readCitation.Takes rest fun text c => ∀ w, isBlank w = true → c.Spelled (text ++ w) := by
  unfold readCitation
  refine takes_skipWhitespace.bind fun w₁ _ _ _ hw₁ => takes_readNumber.bind fun text _ first _ h => ?_
  refine takes_skipWhitespace.bind fun w₂ _ _ _ hw₂ => ?_
  refine ((takes_expectChar '-').optional (restores_expectChar _)).bind fun _ _ dash _ hdash => ?_
  rcases hdash with ⟨rfl, rfl⟩ | ⟨_, rfl, rfl⟩
  · refine takes_pure fun w hw => ?_
    have hline : (Citation.line first).Spelled (w₁ ++ (text ++ (w₂ ++ w))) := by
      refine .line hw₁.1 h ?_
      rw [isBlank_append, hw₂.1, hw]
      rfl
    simpa using hline
  · refine takes_skipWhitespace.bind fun w₃ _ _ _ hw₃ => takes_readNumber.bind fun text' _ last _ h' => ?_
    refine takes_pure fun w hw => ?_
    have hrange : (Citation.range first last).Spelled (w₁ ++ (text ++ (w₂ ++ '-' :: (w₃ ++ (text' ++ w))))) :=
      .range hw₁.1 h hw₂.1 hw₃.1 h' hw
    simpa using hrange

/-- A list of citations is read as its first member and then the others, which take fewer characters than the budget
that they get. -/
theorem reads_citations (h : Citation.SpelledList cs text) : ∃ c others taken tail,
    cs = c :: others ∧ text = taken ++ tail ∧ others.length ≤ tail.length ∧
    ∀ rest, readCitation.Reads taken (tail ++ rest) c ∧
      ∀ budget, others.length < budget → (readMoreCitations budget).Reads tail rest others := by
  induction h with
  | @last c text h =>
    obtain ⟨taken, w, rfl, hw, hread⟩ := reads_readCitation h (Or.inr rfl)
    refine ⟨c, [], taken, w ++ [')'], rfl, List.append_assoc _ _ _, Nat.zero_le _, fun rest => ⟨?_, ?_⟩⟩
    · rw [List.append_assoc]
      exact hread rest
    · intro budget hb
      obtain ⟨b, rfl⟩ : ∃ b, budget = b + 1 := ⟨budget - 1, by omega⟩
      unfold readMoreCitations
      refine Reads.bind (reads_skipWhitespace hw (stops_cons.mpr (by decide))) ?_
      refine (refuses_expectChar (stops_cons.mpr (by decide))).optional.bind_nil ?_
      exact reads_expectChar.bind_last reads_pure
  | @cons c cs text more h _ ih =>
    obtain ⟨taken, w, rfl, hw, hread⟩ := reads_readCitation h (Or.inl rfl)
    obtain ⟨d, others, taken', tail, rfl, rfl, hlen, hmore⟩ := ih
    refine ⟨c, d :: others, taken, w ++ ([','] ++ (taken' ++ tail)), rfl, by simp, ?_, fun rest => ⟨?_, ?_⟩⟩
    · simp only [List.length_append, List.length_cons]
      omega
    · rw [List.append_assoc]
      exact hread _
    · intro budget hb
      obtain ⟨b, rfl⟩ : ∃ b, budget = b + 1 := ⟨budget - 1, by omega⟩
      have hothers : (readMoreCitations b).Reads tail rest others :=
        (hmore rest).2 b (by rw [List.length_cons] at hb; omega)
      unfold readMoreCitations
      refine Reads.bind (reads_skipWhitespace hw (stops_cons.mpr (by decide))) ?_
      refine Reads.bind reads_expectChar.optional (Reads.bind (hmore rest).1 ?_)
      exact hothers.bind_last reads_pure

theorem takes_readMoreCitations (budget : Nat) : (readMoreCitations budget).Takes rest fun text cs =>
    ∀ c taken, (∀ w, isBlank w = true → c.Spelled (taken ++ w)) → Citation.SpelledList (c :: cs) (taken ++ text) := by
  induction budget generalizing rest with
  | zero => exact (yields_fail.expecting _).takes
  | succ budget ih =>
    unfold readMoreCitations
    refine takes_skipWhitespace.bind fun w _ _ _ hw => ?_
    refine ((takes_expectChar ',').optional (restores_expectChar _)).bind fun _ _ comma _ hcomma => ?_
    rcases hcomma with ⟨rfl, rfl⟩ | ⟨_, rfl, rfl⟩
    · refine (takes_expectChar ')').bind fun _ _ _ _ hclosing => takes_pure fun c taken hc => ?_
      obtain rfl := hclosing
      have hlast := Citation.SpelledList.last (hc w hw.1)
      simpa using hlast
    · refine takes_readCitation.bind fun taken' _ d _ hd => ih.bind fun tail _ others _ hothers => ?_
      refine takes_pure fun c taken hc => ?_
      have hcons := Citation.SpelledList.cons (hc w hw.1) (hothers d taken' hd)
      simpa using hcons

theorem reads_readCitations_nil (hr : Stops (· == '(') rest) : readCitations.Reads [] rest [] :=
  (refuses_expectChar hr).optional.bind_last reads_pure

theorem reads_readCitations (h : Citation.SpelledList cs text) : readCitations.Reads ('(' :: text) rest cs := by
  obtain ⟨c, others, taken, tail, rfl, rfl, hlen, hread⟩ := reads_citations h
  have hmore : (withBudget readMoreCitations).Reads tail rest others :=
    reads_withBudget ((hread rest).2 _ (by rw [List.length_append]; omega))
  refine Reads.bind (t := ['(']) reads_expectChar.optional (Reads.commit ?_)
  exact Reads.bind (hread rest).1 (hmore.bind_last reads_pure)

theorem takes_readCitations : readCitations.Takes rest fun text cs =>
    (text = [] ∧ cs = []) ∨ ∃ more, text = '(' :: more ∧ Citation.SpelledList cs more := by
  unfold readCitations
  refine ((takes_expectChar '(').optional (restores_expectChar _)).bind fun _ _ opening _ hopening => ?_
  rcases hopening with ⟨rfl, rfl⟩ | ⟨_, rfl, rfl⟩
  · exact takes_pure (Or.inl ⟨rfl, rfl⟩)
  · refine Takes.commit (takes_readCitation.bind fun taken _ c _ hc => ?_)
    refine (takes_withBudget takes_readMoreCitations).bind fun tail _ others _ hothers => takes_pure (Or.inr ?_)
    exact ⟨taken ++ tail, by simp, hothers c taken hc⟩

end Citations

/-! ## Justifications -/

section Justifications

variable {j : Justification} {name : String} {text rest w : List Char}

theorem isRuleName_iff : isRuleName name = true ↔ name.toList ≠ [] ∧ ∀ c ∈ name.toList, isRuleChar c = true := by
  simp [isRuleName]

theorem isReserved_eq (j : Justification) : (j.isPremise || j.isAssumption) = isReservedName j.rule := rfl

theorem reads_readJustification (h : j.Spelled text) (hw : isBlank w = true) : readJustification.Reads text w j := by
  have hname : ∀ {name : String} {after : List Char}, isRuleName name = true → Stops isRuleChar after →
      (takeWhile isRuleChar).Reads name.toList after name.toList ∧ ¬ name.toList.isEmpty = true := by
    intro name after hname hafter
    obtain ⟨hne, hall⟩ := isRuleName_iff.mp hname
    exact ⟨reads_takeWhile hall hafter, by simpa using hne⟩
  have hend : Stops isRuleChar w ∧ Stops (· == '(') w := by
    rw [← List.append_nil w]
    exact ⟨stops_blank_append hw isRuleChar_of_isWhitespace stops_nil,
      stops_blank_append hw (ne_of_isWhitespace (by decide)) stops_nil⟩
  unfold readJustification
  cases h with
  | plain hn =>
    obtain ⟨hread, hne⟩ := hname hn hend.1
    refine hread.bind_last ?_
    rw [if_neg hne, String.ofList_toList]
    refine reads_checkpoint_bind fun _ => (reads_readCitations_nil hend.2).bind_last ?_
    simp only [List.isEmpty_nil, Bool.not_true, Bool.and_false]
    exact reads_pure
  | @citing name cs text hn hfree h =>
    obtain ⟨hread, hne⟩ := hname hn (stops_cons.mpr (by decide +kernel) : Stops isRuleChar ('(' :: text ++ w))
    refine Reads.bind hread ?_
    rw [if_neg hne, String.ofList_toList]
    refine reads_checkpoint_bind fun _ => (reads_readCitations h).bind_last ?_
    simp only [isReserved_eq, hfree, Bool.false_and]
    exact reads_pure

theorem takes_readJustification : readJustification.Takes rest fun text j => j.Spelled text := by
  unfold readJustification
  refine (takes_takeWhile _).bind fun chars _ name _ hname => ?_
  obtain ⟨rfl, hall⟩ := hname
  split
  next => exact (yields_fail.expecting _).takes
  next hne =>
    have hn : isRuleName (String.ofList name) = true :=
      isRuleName_iff.mpr ⟨by simpa using hne, by simpa using hall⟩
    refine takes_checkpoint_bind fun start => takes_readCitations.bind fun text _ cs _ hcs => ?_
    dsimp only
    split
    next => exact (yields_bind_of_forall fun _ => yields_fail.expecting _).takes
    next hallowed =>
      refine takes_pure ?_
      rcases hcs with ⟨rfl, rfl⟩ | ⟨more, rfl, h⟩
      · have hplain := Justification.Spelled.plain hn
        simpa using hplain
      · have hfree : isReservedName (String.ofList name) = false := by
          have hsome : cs.isEmpty = false := by cases h <;> rfl
          simpa [isReserved_eq, hsome] using hallowed
        have hciting := Justification.Spelled.citing hn hfree h
        simpa using hciting

end Justifications

/-! ## Whole lines -/

section Whole

variable {source depth : Nat} {line : Line} {j : Justification} {text rest w : List Char}

/-- A rule name may start like a connective, but it does not go on like one. -/
theorem not_symbol_prefix_append {name : String} (hname : isRuleName name = true) (hr : Stops (· == '>') rest)
    (op : Connective) : ¬ op.symbol.toList <+: name.toList ++ rest := by
  obtain ⟨hne, hall⟩ := isRuleName_iff.mp hname
  have hno : isRuleChar '<' = false ∧ isRuleChar '>' = false ∧ isRuleChar '&' = false ∧ isRuleChar '|' = false := by
    decide +kernel
  cases hrule : name.toList with
  | nil => exact absurd hrule hne
  | cons c name =>
    rw [hrule] at hall
    have hfirst : ∀ (x : Char) (symbol : List Char), isRuleChar x = false → ¬ x :: symbol <+: c :: (name ++ rest) := by
      intro x symbol hx hp
      obtain ⟨rfl, -⟩ := List.cons_prefix_cons.mp hp
      rw [hall x List.mem_cons_self] at hx
      cases hx
    cases op with
    | and => exact hfirst '&' [] hno.2.2.1
    | or => exact hfirst '|' [] hno.2.2.2
    | equivalent => exact hfirst '<' ['-', '>'] hno.1
    | follows =>
      -- only here the first character can be the same, but then the second differs
      intro hp
      change ['-', '>'] <+: c :: (name ++ rest) at hp
      obtain ⟨-, hp⟩ := List.cons_prefix_cons.mp hp
      cases name with
      | nil =>
        cases rest with
        | nil => cases List.prefix_nil.mp hp
        | cons d rest =>
          obtain ⟨rfl, -⟩ := List.cons_prefix_cons.mp hp
          exact absurd (stops_cons.mp hr) (by decide)
      | cons d name =>
        obtain ⟨rfl, -⟩ := List.cons_prefix_cons.mp hp
        have hd : isRuleChar '>' = true := hall '>' (by simp)
        simp [hno] at hd

theorem not_symbol_prefix_justification (h : j.Spelled text) (hw : isBlank w = true) (op : Connective) :
    ¬ op.symbol.toList <+: text ++ w := by
  cases h with
  | plain hname =>
    refine not_symbol_prefix_append hname ?_ op
    rw [← List.append_nil w]
    exact stops_blank_append hw (ne_of_isWhitespace (by decide)) stops_nil
  | citing hname _ _ =>
    rw [List.append_assoc]
    exact not_symbol_prefix_append hname (stops_cons.mpr (by decide)) op

theorem stops_justification (h : j.Spelled text) : Stops isWhitespace (text ++ rest) := by
  have hstart : ∀ {name : String} {rest : List Char}, isRuleName name = true →
      Stops isWhitespace (name.toList ++ rest) := by
    intro name rest hname
    obtain ⟨hne, hall⟩ := isRuleName_iff.mp hname
    exact stops_append hne fun c hc => isWhitespace_of_isRuleChar (hall c hc)
  cases h with
  | plain hname => exact hstart hname
  | citing hname _ _ =>
    rw [List.append_assoc]
    exact hstart hname

theorem reads_readStep {number : Nat} {sentence : Sentence} {reason : Justification}
    {w₂ w₃ w₄ w₅ numeral spelling justification : List Char} (hw₂ : isBlank w₂ = true) (hn : Numeral number numeral)
    (hw₃ : isBlank w₃ = true) (hne₃ : w₃ ≠ []) (hs : sentence.SpelledTop spelling) (hg : sentence.isGround = true)
    (hw₄ : isBlank w₄ = true) (hne₄ : w₄ ≠ []) (hr : reason.Spelled justification) (hw₅ : isBlank w₅ = true) :
    (readStep source depth).Reads (w₂ ++ (numeral ++ (w₃ ++ (spelling ++ (w₄ ++ justification))))) w₅
      (.step { source, number, depth, sentence, reason }) := by
  have hsentence : (Sentence.topReader false).Reads spelling (w₄ ++ justification ++ w₅) sentence := by
    rw [List.append_assoc]
    exact Sentence.reads_topReader (u := []) hs (Or.inr hg) rfl hw₄ (stops_justification hr)
      (not_symbol_prefix_justification hr hw₅)
  unfold readStep
  refine Reads.bind (reads_skipWhitespace hw₂ ?_) (Reads.bind (reads_readNumber hn ?_) ?_)
  · rw [List.append_assoc]
    exact hn.stops fun _ => isWhitespace_of_isDigit
  · rw [List.append_assoc]
    exact stops_append hne₃ fun c hc => isDigit_of_isWhitespace c (isBlank_iff.mp hw₃ c hc)
  refine Reads.bind (reads_expectWhitespace hw₃ hne₃ ?_) (Reads.bind hsentence ?_)
  · rw [List.append_assoc]
    exact hs.stops
  refine Reads.bind (reads_expectWhitespace hw₄ hne₄ (stops_justification hr)) ?_
  exact (reads_readJustification hr hw₅).bind_last reads_pure

theorem reads_reader (h : line.Spelled source text) :
    ∃ taken w, text = taken ++ w ∧ isBlank w = true ∧ (reader source).Reads taken w line := by
  cases h with
  | @separator depth w w' hw hd hw' =>
    refine ⟨w ++ (List.replicate depth '|' ++ ['-']), w', by simp, hw', ?_⟩
    unfold reader
    refine Reads.bind (reads_skipWhitespace hw ?_) (Reads.bind (reads_readBars hd (stops_cons.mpr (by decide))) ?_)
    · rw [List.append_assoc]
      exact stops_replicate_bar hd
    exact reads_expectChar.optional.bind_last reads_pure
  | @step number depth sentence reason w₁ w₂ w₃ w₄ w₅ numeral spelling justification hw₁ hd hw₂ hn hw₃ hne₃ hs hg hw₄
      hne₄ hr hw₅ =>
    -- what comes after the bars is neither a bar nor a dash
    have hafter : ∀ x : Char, isWhitespace x = false → x.isDigit = false →
        Stops (· == x) (w₂ ++ (numeral ++ (w₃ ++ (spelling ++ (w₄ ++ justification)))) ++ w₅) := by
      intro x hspace hdigit
      rw [List.append_assoc, List.append_assoc]
      refine stops_blank_append hw₂ (ne_of_isWhitespace hspace) (hn.stops fun c hc => ?_)
      rw [beq_eq_false_iff_ne]
      rintro rfl
      rw [hdigit] at hc
      cases hc
    refine ⟨w₁ ++ (List.replicate depth '|' ++ (w₂ ++ (numeral ++ (w₃ ++ (spelling ++ (w₄ ++ justification)))))), w₅,
      by simp, hw₅, ?_⟩
    unfold reader
    refine Reads.bind (reads_skipWhitespace hw₁ ?_) ?_
    · rw [List.append_assoc]
      exact stops_replicate_bar hd
    refine Reads.bind (reads_readBars hd (hafter '|' (by decide) (by decide))) ?_
    refine (refuses_expectChar (hafter '-' (by decide) (by decide))).optional.bind_nil ?_
    exact Reads.expecting (reads_readStep hw₂ hn hw₃ hne₃ hs hg hw₄ hne₄ hr hw₅).commit _

theorem takes_readStep : (readStep source depth).Takes rest fun text line => ∀ w w', isBlank w = true → 1 ≤ depth →
    isBlank w' = true → line.Spelled source (w ++ (List.replicate depth '|' ++ (text ++ w'))) := by
  unfold readStep
  refine takes_skipWhitespace.bind fun w₂ _ _ _ hw₂ => takes_readNumber.bind fun numeral _ number _ hn => ?_
  refine takes_expectWhitespace.bind fun w₃ _ _ _ hw₃ => ?_
  refine ((Sentence.takes_topReader false).and_yields Sentence.topReader_yields).bind fun _ _ sentence _ hs => ?_
  obtain ⟨⟨v, spelling, rfl, hv, hs⟩, hg⟩ := hs
  refine takes_expectWhitespace.bind fun w₄ _ _ _ hw₄ => ?_
  refine takes_readJustification.bind fun justification _ reason _ hr => ?_
  refine takes_pure fun w w' hw hd hw' => ?_
  -- the reader of sentences may skip white space too, which belongs to the white space in front of it
  have hblank : isBlank (w₃ ++ v) = true := by
    rw [isBlank_append, hw₃.1, hv]
    rfl
  have hne : w₃ ++ v ≠ [] := fun h => hw₃.2 (List.append_eq_nil_iff.mp h).1
  have hstep : (step { source, number, depth, sentence, reason }).Spelled source _ :=
    .step hw hd hw₂.1 hn hblank hne hs hg hw₄.1 hw₄.2 hr hw'
  simpa using hstep

/-- The reader takes lines.  White space at the end is left to what comes after it. -/
theorem takes_reader : (reader source).Takes rest fun text line =>
    ∀ w, isBlank w = true → line.Spelled source (text ++ w) := by
  unfold reader
  refine takes_skipWhitespace.bind fun w₁ _ _ _ hw₁ => takes_readBars.bind fun _ _ depth _ hbars => ?_
  obtain ⟨rfl, hd⟩ := hbars
  refine ((takes_expectChar '-').optional (restores_expectChar _)).bind fun _ _ dash _ hdash => ?_
  rcases hdash with ⟨rfl, rfl⟩ | ⟨_, rfl, rfl⟩
  · refine (takes_readStep.commit.expecting _).mono fun text line h w hw => ?_
    simpa using h w₁ w hw₁.1 hd hw
  · refine takes_pure fun w hw => ?_
    have hseparator : (separator depth).Spelled source _ := .separator hw₁.1 hd hw
    simpa using hseparator

/-- **A text is read as a line exactly if it is a spelling of the line.** -/
theorem parse_eq_ok_iff {text : String} : parse text source = .ok line ↔ line.Spelled source text.toList := by
  constructor
  · intro h
    obtain ⟨taken, w, htext, hw, hline⟩ := takes_reader.readAll h
    rw [htext]
    exact hline w hw
  · intro h
    obtain ⟨taken, w, htext, hw, hread⟩ := reads_reader h
    rw [parse, htext]
    exact readAll_of_reads hread hw

end Whole

end Line

/-! ## The exact grammar -/

/-- **Lines are read exactly, and in one way only.**  A text is read as a line if and only if it is spelled so: white
space, one bar or more, and either a dash, or a number, a ground sentence whose outermost parentheses may be missing,
and a rule name with its citations; and no text is a spelling of two lines. -/
theorem line_grammar_exact (text : String) (source : Nat) :
    (∀ line : Line, Line.parse text source = .ok line ↔ line.Spelled source text.toList) ∧
    ∀ line line' : Line, line.Spelled source text.toList → line'.Spelled source text.toList → line = line' := by
  refine ⟨fun line => Line.parse_eq_ok_iff, fun line line' h h' => ?_⟩
  have hread := Line.parse_eq_ok_iff.mpr h
  rw [Line.parse_eq_ok_iff.mpr h'] at hread
  exact (Except.ok.inj hread).symm

/-- A step with everything that lines may have: blanks, zeros in front, no outermost parentheses, a rule name that
starts like a connective, and the largest number; with a larger one there is no line. -/
theorem line_grammar_exact_largest_number :
    (∃ line : Line, Line.parse " || 007 p -> !q -K( 3 ,1-18446744073709551615 ) " 4 = .ok line ∧
      line.Spelled 4 " || 007 p -> !q -K( 3 ,1-18446744073709551615 ) ".toList ∧
      ∀ line' : Line, line'.Spelled 4 " || 007 p -> !q -K( 3 ,1-18446744073709551615 ) ".toList → line' = line) ∧
    ∀ line : Line, ¬ line.Spelled 4 "|1 p -K(18446744073709551616)".toList := by
  constructor
  · let sentence : Sentence := (Sentence.atom 'p').implies (.not (.atom 'q'))
    let line : Line := .step ⟨4, 6, 2, sentence, ⟨"-K", [.line 2, .range 0 18446744073709551614]⟩⟩
    have hread : Line.parse " || 007 p -> !q -K( 3 ,1-18446744073709551615 ) " 4 = .ok line := by decide +kernel
    obtain ⟨hexact, hunique⟩ := line_grammar_exact " || 007 p -> !q -K( 3 ,1-18446744073709551615 ) " 4
    have hline := (hexact line).mp hread
    exact ⟨line, hread, hline, fun line' h' => hunique line' line h' hline⟩
  · intro line h
    have hread := ((line_grammar_exact "|1 p -K(18446744073709551616)" 4).1 line).mpr h
    have hrefuse : Line.parse "|1 p -K(18446744073709551616)" 4 =
        .error ⟨true, 8, [.description "a line number", .label "a proof line"]⟩ := by decide +kernel
    rw [hrefuse] at hread
    cases hread

end Deduction
