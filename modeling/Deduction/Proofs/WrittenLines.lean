import Deduction.Proofs.LineGrammar

/-!
# Written lines

The written form of a step is one of the spellings of its line, provided that the step can be written at all; so the
step is read back from it.  Conversely a line has a spelling only if it can be written.

* `Step.Writable`: the steps that can be written.
* `Line.spelled_chars_step`, `Line.spelled_chars_separator`: written lines are spellings.
* `Line.parse_text_step`, `Line.parse_text_separator`: lines are read as what was written.
* `Line.writable_of_parse`: only such steps are read.
-/

namespace Deduction

open Reader

/-- The numbers of the citation can be written. -/
def Citation.Writable : Citation → Prop
  | .line number => number + 1 < numberBound
  | .range first last => first + 1 < numberBound ∧ last + 1 < numberBound

/-- The citations of the rule can be written, and a premise or an assumption has none. -/
structure Justification.Writable (j : Justification) : Prop where
  citations : ∀ c ∈ j.citations, c.Writable
  uncited : j.isPremise = true ∨ j.isAssumption = true → j.citations = []

/-- The step has at least one bar, numbers that can be written, and a ground sentence over the letters `a`-`z`. -/
structure Step.Writable (s : Step) : Prop where
  depth : 1 ≤ s.depth
  number : s.number + 1 < numberBound
  ground : s.sentence.isGround = true
  letters : ∀ c ∈ s.sentence.occurrences, c.isLower = true
  reason : s.reason.Writable

namespace Line

/-! ## Written lines are spellings -/

section Written

variable {w : List Char} {c : Citation} {cs : List Citation} {j : Justification} {s : Step}

theorem numeral_decimal {n : Nat} (hn : n + 1 < numberBound) : Numeral n (decimal (n + 1)) :=
  ⟨fun _ hc => isDigit_of_mem_decimal hc, decimal_ne_nil _, Nat.ofDigitChars_ten_toDigits, hn⟩

theorem spelled_chars_citation (hc : c.Writable) (hw : isBlank w = true) : c.Spelled (w ++ c.chars) := by
  cases c with
  | line number =>
    have h : (Citation.line number).Spelled _ := .line hw (numeral_decimal hc) isBlank_nil
    simpa [Citation.chars] using h
  | range first last =>
    have h : (Citation.range first last).Spelled _ :=
      .range hw (numeral_decimal hc.1) isBlank_nil isBlank_nil (numeral_decimal hc.2) isBlank_nil
    simpa [Citation.chars] using h

/-- The written form of the citations after the first, with the closing parenthesis. -/
def moreChars (cs : List Citation) : List Char := cs.flatMap (fun c => ',' :: ' ' :: c.chars) ++ [')']

theorem moreChars_cons (c : Citation) (cs : List Citation) :
    moreChars (c :: cs) = [','] ++ (([' '] ++ c.chars) ++ moreChars cs) := by
  simp [moreChars]

theorem chars_of_citations {j : Justification} {c : Citation} {cs : List Citation} (h : j.citations = c :: cs) :
    j.chars = j.rule.toList ++ (['('] ++ (c.chars ++ moreChars cs)) := by
  have key : ∀ (c : Citation) (cs : List Citation),
      [',', ' '].intercalate ((c :: cs).map Citation.chars) ++ [')'] = c.chars ++ moreChars cs := by
    intro c cs
    induction cs generalizing c with
    | nil => simp [moreChars]
    | cons d ds ih =>
      have hd := ih d
      simp only [List.map_cons] at hd
      simp only [List.map_cons, List.intercalate_cons_cons, moreChars_cons, List.append_assoc, hd]
      rfl
  rw [Justification.chars, h, List.isEmpty_cons, ← key]
  simp

theorem spelledList_moreChars (hcs : ∀ d ∈ c :: cs, d.Writable) (hw : isBlank w = true) :
    Citation.SpelledList (c :: cs) (w ++ c.chars ++ moreChars cs) := by
  induction cs generalizing c w with
  | nil => exact .last (spelled_chars_citation (hcs c List.mem_cons_self) hw)
  | cons d ds ih =>
    obtain ⟨hc, hds⟩ := List.forall_mem_cons.mp hcs
    rw [moreChars_cons]
    exact .cons (spelled_chars_citation hc hw) (ih hds (w := [' ']) (by decide))

theorem spelled_chars_justification (hname : isRuleName j.rule = true) (hj : j.Writable) : j.Spelled j.chars := by
  obtain ⟨rule, citations⟩ := j
  cases citations with
  | nil => exact .plain hname
  | cons c cs =>
    have hfree : isReservedName rule = false := by
      cases hr : isReservedName rule with
      | false => rfl
      | true =>
        have hcited := hj.uncited ((Bool.or_eq_true _ _).mp hr)
        cases hcited
    rw [chars_of_citations rfl]
    exact .citing hname hfree (spelledList_moreChars (w := []) hj.citations isBlank_nil)

/-- **The written form of a step is a spelling of its line.** -/
theorem spelled_chars_step (hs : s.Writable) (hname : isRuleName s.reason.rule = true) (source : Nat) :
    (Line.step { s with source }).Spelled source s.chars := by
  have hspace : isBlank [' '] = true := by decide
  have hsentence : s.sentence.SpelledTop s.sentence.chars :=
    .strict (Sentence.spelled_chars (Sentence.lettered_of_isGround hs.ground hs.letters))
  have h : (Line.step { s with source }).Spelled source _ :=
    .step isBlank_nil hs.depth isBlank_nil (numeral_decimal hs.number) hspace (List.cons_ne_nil _ _) hsentence hs.ground
      hspace (List.cons_ne_nil _ _) (spelled_chars_justification hname hs.reason) isBlank_nil
  simpa [Step.chars, Step.charsIn, Spelling.sentence, Spelling.spell] using h

theorem spelled_chars_separator {depth : Nat} (hd : 1 ≤ depth) (source : Nat) :
    (Line.separator depth).Spelled source (Line.separator depth).chars := by
  have htext : (Line.separator depth).chars = List.replicate depth '|' ++ ['-'] := by
    obtain ⟨n, rfl⟩ : ∃ n, depth = n + 1 := ⟨depth - 1, by omega⟩
    simp [Line.chars, separatorMark, List.replicate_succ']
  rw [htext]
  exact .separator isBlank_nil hd isBlank_nil

/-- **A step is read back from its line.** -/
theorem parse_text_step (hs : s.Writable) (hname : isRuleName s.reason.rule = true) (source : Nat) :
    parse (Line.step s).text source = .ok (.step { s with source }) := by
  rw [parse_eq_ok_iff, Line.text, String.toList_ofList]
  exact spelled_chars_step hs hname source

/-- A separator is read back from its line. -/
theorem parse_text_separator {depth : Nat} (hd : 1 ≤ depth) (source : Nat) :
    parse (Line.separator depth).text source = .ok (.separator depth) := by
  rw [parse_eq_ok_iff, Line.text, String.toList_ofList]
  exact spelled_chars_separator hd source

end Written

end Line

/-! ## What is read can be written -/

section Read

variable {c : Citation} {cs : List Citation} {j : Justification} {text : List Char}

theorem Citation.Spelled.writable (h : c.Spelled text) : c.Writable := by
  cases h with
  | line _ h _ => exact h.bound
  | range _ h _ _ h' _ => exact ⟨h.bound, h'.bound⟩

theorem Citation.SpelledList.writable (h : Citation.SpelledList cs text) : ∀ c ∈ cs, c.Writable := by
  induction h with
  | last h => exact List.forall_mem_singleton.mpr h.writable
  | cons h _ ih => exact List.forall_mem_cons.mpr ⟨h.writable, ih⟩

theorem Justification.Spelled.writable (h : j.Spelled text) : isRuleName j.rule = true ∧ j.Writable := by
  cases h with
  | plain hname => exact ⟨hname, ⟨fun c hc => absurd hc List.not_mem_nil, fun _ => rfl⟩⟩
  | citing hname hfree h =>
    refine ⟨hname, ⟨h.writable, fun hreserved => ?_⟩⟩
    rw [← Bool.or_eq_true, Line.isReserved_eq, hfree] at hreserved
    cases hreserved

theorem Line.Spelled.writable {source : Nat} {s : Step} (h : (Line.step s).Spelled source text) :
    s.Writable ∧ isRuleName s.reason.rule = true := by
  cases h with
  | step _ hd _ hn _ _ hs hg _ _ hr _ => exact ⟨⟨hd, hn.bound, hg, hs.lettered.lower, hr.writable.2⟩, hr.writable.1⟩

/-- **A step that was read can be written.** -/
theorem Line.writable_of_parse {text : String} {source : Nat} {s : Step} (h : parse text source = .ok (.step s)) :
    s.Writable ∧ isRuleName s.reason.rule = true := (parse_eq_ok_iff.mp h).writable

end Read

end Deduction
