import Mathlib.Data.List.Induction
import Deduction.Diagnostic
import Deduction.Proofs.ErrorPlaces
import Deduction.Proofs.SourceLines

/-!
# What diagnostics mark

A diagnostic looks up cited numbers among the lines of the file, not in the proof that was read.  Once the numbering has
been checked this makes no difference: the step at position `k` is the only one with number `k`.

* `Diagnostic.lookup_numberedLines`: the line of a number is the source of the step at that position.
* `Diagnostic.citationMarks_eq`: the marks for a citation are at the steps that it names.
* `Diagnostic.contains_mismatchSpan`: the column of a mismatch stays in its line.
* `diagnostic_explains`: what the marks of a diagnostic are.
-/

namespace Deduction

/-- The numbers that a citation names: both ends of a range, once if they are the same. -/
def Citation.numbers : Citation → List Nat
  | .line number => [number]
  | .range first last => if first = last then [first] else [first, last]

/-- The span `span` lies in `outer`. -/
def Span.Contains (outer span : Span) : Prop :=
  outer.start ≤ span.start ∧ span.start ≤ span.stop ∧ span.stop ≤ outer.stop

namespace Diagnostic

/-- The marks are at the lines of those steps of the proof in the file that have one of the numbers, in the order of the
numbers. -/
def PointAt (library : Library) (source : Source) (numbers : List Nat) (marks : List Mark) : Prop :=
  ∃ p, readProof library source.asciiLines = .ok p ∧ marks.map (fun m => (m.severity, m.span)) =
    (numbers.filterMap fun k => p.steps[k]?).map fun s => (.info, source.lineSpan s.source)

/-! ## Cited lines -/

section Cited

variable {library : Library} {source : Source} {p : Proof}

theorem filterMap_numbered {n : Nat} {texts : List String} {lines : List Line} (h : Proof.ReadAs n texts lines) :
    (texts.zipIdx n).filterMap numbered? = (Line.steps lines).map fun s => (s.number, s.source) := by
  induction lines generalizing n texts with
  | nil =>
    have hlen := h.length_eq
    rw [List.length_nil, List.length_eq_zero_iff] at hlen
    rw [hlen]
    rfl
  | cons line lines ih =>
    obtain ⟨text, rest, rfl, hline, hrest⟩ := Proof.readAs_cons_right.mp h
    rw [List.zipIdx_cons, List.filterMap_cons, ih hrest]
    cases line with
    | separator d => simp [numbered?, hline]
    | step s => simp [numbered?, hline, (Line.step_of_parse hline).1]

/-- Where every step is numbered by its position, a number is looked up at that position. -/
theorem lookup_of_numbered {steps : List Step} (hnum : ∀ (j : Nat) (t : Step), steps[j]? = some t → t.number = j)
    (k : Nat) : (steps.map fun s => (s.number, s.source)).lookup k = steps[k]?.map Step.source := by
  -- from the end: the last step has the number of steps before it as its number, so it hides none of them
  induction steps using List.reverseRecOn with
  | nil => rfl
  | append_singleton steps x ih =>
    have hx : x.number = steps.length := hnum steps.length x (by simp)
    have hrest := ih fun j t ht => by
      refine hnum j t ?_
      rw [List.getElem?_append_left (List.getElem?_eq_some_iff.mp ht).1, ht]
    rw [List.map_append, List.lookup_append, hrest]
    rcases Nat.lt_trichotomy k steps.length with hlt | rfl | hgt
    · rw [List.getElem?_append_left hlt, List.getElem?_eq_getElem hlt]
      rfl
    · simp [hx]
    · have hne : (k == steps.length) = false := by simpa using Nat.ne_of_gt hgt
      have hnone : (steps ++ [x])[k]? = none := by
        apply List.getElem?_eq_none
        rw [List.length_append]
        exact hgt
      rw [hnone, List.getElem?_eq_none (Nat.le_of_lt hgt)]
      simp [hx, List.lookup_cons, hne]

variable (h : readProof library source.asciiLines = .ok p)
  (hnum : ∀ (j : Nat) (t : Step), p.steps[j]? = some t → t.number = j)

include h hnum

/-- **The line of a number is where the step at that position was read.** -/
theorem lookup_numberedLines (k : Nat) :
    (numberedLines source).lookup k = p.steps[k]?.map Step.source := by
  obtain ⟨lines, hread, -, hsteps⟩ := Proof.readProof_eq_ok_iff.mp h
  rw [numberedLines, filterMap_numbered hread, ← hsteps]
  exact lookup_of_numbered hnum k

theorem citedLines_eq (c : Citation) :
    citedLines source c = (c.numbers.filterMap fun k => p.steps[k]?).map Step.source := by
  have hends : citedLines source c = c.numbers.filterMap fun k => (numberedLines source).lookup k := by
    cases c <;> rfl
  rw [hends, List.map_filterMap]
  congr 1
  funext k
  exact lookup_numberedLines h hnum k

theorem citationMarks_eq (label : String) (c : Citation) :
    (citationMarks source label c).map (fun m => (m.severity, m.span)) =
      (c.numbers.filterMap fun k => p.steps[k]?).map fun s => (.info, source.lineSpan s.source) := by
  rw [citationMarks, citedLines_eq h hnum, List.map_map, List.map_map]
  rfl

theorem pointAt_citationMarks (label : String) (c : Citation) :
    PointAt library source c.numbers (citationMarks source label c) :=
  ⟨p, h, citationMarks_eq h hnum label c⟩

theorem pointAt_flatMap (label : String) (cs : List Citation) :
    PointAt library source (cs.flatMap Citation.numbers) (cs.flatMap (citationMarks source label)) := by
  refine ⟨p, h, ?_⟩
  rw [List.map_flatMap, List.filterMap_flatMap, List.map_flatMap]
  congr 1
  funext c
  exact citationMarks_eq h hnum label c

end Cited

/-! ## The mark at the fault -/

section Fault

theorem contains_lineSpan (source : Source) (i : Nat) : (source.lineSpan i).Contains (source.lineSpan i) :=
  ⟨Nat.le_refl _, (source.lineSpan_bounds i).1, Nat.le_refl _⟩

theorem lineSpan_stop (source : Source) (i : Nat) :
    (source.lineSpan i).stop = (source.lineSpan i).start + byteLength ((source.line? i).getD []) := by
  cases h : source.lines[i]? with
  | none => simp [Source.lineSpan, Source.line?, h]
  | some line => simp [Source.lineSpan, Source.line?, h, TextLine.span]

/-- A column is at most the length of its line, and one character wide unless the line ends there. -/
theorem contains_mismatchSpan (source : Source) (i : Nat) (m : Mismatch) :
    (source.lineSpan i).Contains (mismatchSpan source i m) := by
  unfold mismatchSpan
  simp only
  split
  next hplace =>
    have hstop := lineSpan_stop source i
    refine ⟨?_, ?_, ?_⟩ <;> simp only <;> omega
  next => exact contains_lineSpan source i

/-- A layout error gets one mark, at its line. -/
theorem explainLayout_marks (source : Source) (i : Nat) (line : Option Line) (cause : LayoutError) :
    ∃ label span, (explainLayout source i line cause).1 = [here label span] ∧ (source.lineSpan i).Contains span := by
  have hline := contains_lineSpan source i
  cases cause with
  | malformed m => exact ⟨_, _, rfl, contains_mismatchSpan source i m⟩
  | expectedSeparator => exact ⟨_, _, rfl, hline⟩
  | expectedSeparatorOrPremise =>
    by_cases hend : source.size ≤ i
    · exact ⟨"the proof ends here", _, by simp [explainLayout, hend], hline⟩
    · exact ⟨"", _, by simp [explainLayout, hend], hline⟩
  | invalidDepth =>
    rcases line with _ | _ | s <;> exact ⟨_, _, rfl, hline⟩
  | unknownRule name =>
    rcases line with _ | _ | s <;> exact ⟨_, _, rfl, hline⟩
  | expectedPremise => exact ⟨_, _, rfl, hline⟩
  | expectedAssumption => exact ⟨_, _, rfl, hline⟩

end Fault

/-- A first mark and further ones explain the error of a proof file. -/
structure Explains (library : Library) (source : Source) (e : VerificationError) (first : Mark) (others : List Mark) :
    Prop where
  /-- The first mark is at the fault, in the line of the error. -/
  at_fault : first.severity = .error ∧ (source.lineSpan e.source).Contains first.span
  /-- All marks are in the text. -/
  in_text : ∀ mark ∈ first :: others, mark.span.start ≤ mark.span.stop ∧ mark.span.stop ≤ source.byteSize
  /-- Where a citation is out of scope, the others are at the lines that it names. -/
  out_of_scope : ∀ c, e.cause = .check (.inaccessible c) → PointAt library source c.numbers others
  /-- Where a rule does not apply, the others are at the lines that the step cites. -/
  not_applicable : ∀ rule error, e.cause = .check (.invalidApplication rule error) →
    ∃ s, e.line = some (.step s) ∧ PointAt library source (s.reason.citations.flatMap Citation.numbers) others
  /-- Otherwise there are no others. -/
  alone : (∀ c, e.cause ≠ .check (.inaccessible c)) →
    (∀ rule error, e.cause ≠ .check (.invalidApplication rule error)) → others = []

section Explained

variable {library : Library} {source : Source} {e : VerificationError}

/-- A mark in a line is a mark in the text. -/
theorem in_text_of_contains {i : Nat} {span : Span} (h : (source.lineSpan i).Contains span) :
    span.start ≤ span.stop ∧ span.stop ≤ source.byteSize :=
  ⟨h.2.1, Nat.le_trans h.2.2 (source.lineSpan_bounds i).2⟩

theorem PointAt.in_text {numbers : List Nat} {marks : List Mark} (h : PointAt library source numbers marks) :
    ∀ mark ∈ marks, mark.span.start ≤ mark.span.stop ∧ mark.span.stop ≤ source.byteSize := by
  obtain ⟨p, -, heq⟩ := h
  intro mark hmark
  have hmem : (mark.severity, mark.span) ∈ marks.map fun m => (m.severity, m.span) :=
    List.mem_map_of_mem hmark
  rw [heq] at hmem
  obtain ⟨s, -, hs⟩ := List.mem_map.mp hmem
  have hspan : source.lineSpan s.source = mark.span := congrArg Prod.snd hs
  rw [← hspan]
  exact source.lineSpan_bounds s.source

theorem explains_alone {label : String} {span : Span} (hspan : (source.lineSpan e.source).Contains span)
    (hscope : ∀ c, e.cause ≠ .check (.inaccessible c))
    (happ : ∀ rule error, e.cause ≠ .check (.invalidApplication rule error)) :
    Explains library source e (here label span) [] where
  at_fault := ⟨rfl, hspan⟩
  in_text mark hmark := by
    rw [List.mem_singleton.mp hmark]
    exact in_text_of_contains hspan
  out_of_scope c hc := absurd hc (hscope c)
  not_applicable rule error hc := absurd hc (happ rule error)
  alone _ _ := rfl

theorem in_text_cons {label : String} {numbers : List Nat} {marks : List Mark} (i : Nat)
    (h : PointAt library source numbers marks) : ∀ mark ∈ here label (source.lineSpan i) :: marks,
      mark.span.start ≤ mark.span.stop ∧ mark.span.stop ≤ source.byteSize := by
  intro mark hmark
  rcases List.mem_cons.mp hmark with rfl | hmark
  · exact in_text_of_contains (contains_lineSpan source i)
  · exact h.in_text mark hmark

/-- Nothing can be read from a file without lines. -/
theorem isEmpty_eq_false {p : Proof} (h : readProof library source.asciiLines = .ok p) : source.isEmpty = false := by
  cases hlines : source.lines with
  | nil =>
    rw [Source.asciiLines, hlines] at h
    cases h
  | cons line lines => rw [Source.isEmpty, hlines, List.isEmpty_cons]

theorem explains_found {task : Task} {p : Proof} {e : Located CheckError}
    (h : readProof library source.asciiLines = .ok p) (hf : Proof.Found library task p.steps e) :
    ∃ first others, (ofError library source (.ofCheck e)).marks = first :: others ∧
      Explains library source (.ofCheck e) first others := by
  have hline := fun i => contains_lineSpan source i
  cases hf with
  | numbering hs hn => exact ⟨_, _, rfl, explains_alone (hline _) (by rintro _ ⟨⟩) (by rintro _ _ ⟨⟩)⟩
  | @scope i s c hnum hs hc hno =>
    have hpoint := pointAt_citationMarks h hnum "this line is not in scope" c
    refine ⟨_, _, rfl, ⟨rfl, hline _⟩, in_text_cons _ hpoint, ?_, ?_, ?_⟩
    · intro c' hc'
      cases hc'
      exact hpoint
    · intro rule error hc'
      cases hc'
    · intro hscope
      exact absurd rfl (hscope c)
  | premise hallowed hs hp hno =>
    exact ⟨_, _, rfl, explains_alone (hline _) (by rintro _ ⟨⟩) (by rintro _ _ ⟨⟩)⟩
  | @application i s error hnum hscope hs hp ha happ =>
    have hpoint := pointAt_flatMap h hnum "cited premise" s.reason.citations
    refine ⟨_, _, rfl, ⟨rfl, hline _⟩, in_text_cons _ hpoint, ?_, ?_, ?_⟩
    · intro c hc
      cases hc
    · intro rule error' hc
      exact ⟨s, rfl, hpoint⟩
    · intro _ hno
      exact absurd rfl (hno _ error)
  | conclusion hc hs =>
    refine ⟨here "the proof ends here" _, [], ?_, explains_alone (hline _) (by rintro _ ⟨⟩) (by rintro _ _ ⟨⟩)⟩
    simp [ofError, explainCheck, VerificationError.ofCheck, Proof.faultAt, isEmpty_eq_false h]
  | empty hc hsteps =>
    refine ⟨here "the proof ends here" _, [], ?_, explains_alone (hline _) (by rintro _ ⟨⟩) (by rintro _ _ ⟨⟩)⟩
    simp [ofError, explainCheck, VerificationError.ofCheck, isEmpty_eq_false h]

end Explained

end Diagnostic

/-- **Diagnostics point at the line of the error and at the lines that are really cited.**  The first mark is in the
line of the error, also where a column of it is marked.  Where a citation is out of scope, or the cited lines do not fit
the rule, further marks are at the cited steps of the proof that was read, in the order in which they are cited; numbers
that no step has are left out.  No other error has further marks. -/
theorem diagnostic_explains {library : Library} {task : Task} {source : Source} {e : VerificationError}
    (h : verify library task source.asciiLines = .error e) :
    ∃ first others, (Diagnostic.ofError library source e).marks = first :: others ∧
      Diagnostic.Explains library source e first others := by
  rcases verify_eq_error h with hread | ⟨p, e', hread, rfl, hfound⟩
  · obtain ⟨e', rfl, -⟩ := readProof_eq_error hread
    obtain ⟨label, span, hmarks, hspan⟩ := Diagnostic.explainLayout_marks source e'.source e'.line e'.cause
    refine ⟨_, [], hmarks, Diagnostic.explains_alone hspan ?_ ?_⟩
    · intro c hc
      cases hc
    · intro rule error hc
      cases hc
  · exact Diagnostic.explains_found hread hfound

/-- The cited lines are marked in the order of the citations, past a blank line and a connective of three bytes; of a
range that leaves the proof, only the end that is there. -/
theorem diagnostic_explains_cited_lines :
    (∃ e first others, verify Library.builtin {}
        (Source.asciiLines ⟨"proof.nd", "|1 p ∧ q V\n \n|2 q V\n|-\n|3 p +K(2,1)\n"⟩) = .error e ∧
      (Diagnostic.ofError Library.builtin
        ⟨"proof.nd", "|1 p ∧ q V\n \n|2 q V\n|-\n|3 p +K(2,1)\n"⟩ e).marks = first :: others ∧
      Diagnostic.PointAt Library.builtin
        ⟨"proof.nd", "|1 p ∧ q V\n \n|2 q V\n|-\n|3 p +K(2,1)\n"⟩ [1, 0] others) ∧
    ∃ e first others, verify Library.builtin {}
        (Source.asciiLines ⟨"proof.nd", "|1 p V\n|-\n|2 p R(1-7)"⟩) = .error e ∧
      (Diagnostic.ofError Library.builtin ⟨"proof.nd", "|1 p V\n|-\n|2 p R(1-7)"⟩ e).marks = first :: others ∧
      Diagnostic.PointAt Library.builtin ⟨"proof.nd", "|1 p V\n|-\n|2 p R(1-7)"⟩ [0, 6] others := by
  have happ : verify Library.builtin {}
      (Source.asciiLines ⟨"proof.nd", "|1 p ∧ q V\n \n|2 q V\n|-\n|3 p +K(2,1)\n"⟩) =
      .error ⟨.check (.invalidApplication "+K" .doesNotFit), 3,
        some (.step ⟨3, 2, 1, .atom 'p', ⟨"+K", [.line 1, .line 0]⟩⟩)⟩ := by decide +kernel
  have hscope : verify Library.builtin {} (Source.asciiLines ⟨"proof.nd", "|1 p V\n|-\n|2 p R(1-7)"⟩) =
      .error ⟨.check (.inaccessible (.range 0 6)), 2,
        some (.step ⟨2, 1, 1, .atom 'p', ⟨"R", [.range 0 6]⟩⟩)⟩ := by decide +kernel
  obtain ⟨first, others, hmarks, hexplains⟩ := diagnostic_explains happ
  obtain ⟨s, hs, hpoint⟩ := hexplains.not_applicable "+K" .doesNotFit rfl
  cases hs
  obtain ⟨first', others', hmarks', hexplains'⟩ := diagnostic_explains hscope
  exact ⟨⟨_, first, others, happ, hmarks, hpoint⟩, _, first', others', hscope, hmarks',
    hexplains'.out_of_scope _ rfl⟩

end Deduction
