import Deduction.Proofs.Keeping
import Deduction.Proofs.Marks

/-!
# Marks and characters

A mark is given in bytes, and it can be cut out of the text only if both of its ends are between characters.  Lines are
such stretches.  The column of a line that cannot be read starts at one, but is taken to be one byte wide: where reading
breaks off at a character of several bytes, the mark ends inside of it.  A line with connectives to be transcribed is
marked as a whole, so there this does not happen; other characters of several bytes are not transcribed.

* `Diagnostic.boundary_mismatchSpan`: the ends of the mark at a column.
* `diagnostic_boundaries`: exactly when all marks can be cut out.
-/

namespace Deduction

/-! ## Boundaries -/

section Boundaries

variable {text done ahead : List Char} {n : Nat}

theorem boundary_zero (text : List Char) : Boundary text 0 := ⟨[], text, rfl, rfl⟩

theorem boundary_byteLength (text : List Char) : Boundary text (byteLength text) := ⟨text, [], by simp, rfl⟩

/-- A boundary of a part of a text is one of the text. -/
theorem Boundary.of_part (h : Boundary text n) (before after : List Char) :
    Boundary (before ++ (text ++ after)) (byteLength before + n) := by
  obtain ⟨done, ahead, rfl, rfl⟩ := h
  exact ⟨before ++ done, ahead ++ after, by simp, by simp⟩

/-- A place in a text cuts it in one way only. -/
theorem append_inj_of_byteLength {done' ahead' : List Char} (h : done ++ ahead = done' ++ ahead')
    (hn : byteLength done = byteLength done') : done = done' ∧ ahead = ahead' := by
  have hnil : ∀ e, byteLength e = 0 → e = [] := by
    intro e he
    by_contra hne
    exact Nat.ne_of_gt (byteLength_pos hne) he
  rcases List.append_eq_append_iff.mp h with ⟨e, rfl, rfl⟩ | ⟨e, rfl, rfl⟩
  all_goals
    obtain rfl := hnil e (by rw [byteLength_append] at hn; omega)
    simp

/-- The byte after the first of a character of several bytes is inside of that character. -/
theorem boundary_succ_iff (done : List Char) (c : Char) (ahead : List Char) :
    Boundary (done ++ c :: ahead) (byteLength done + 1) ↔ c.utf8Size = 1 := by
  constructor
  · rintro ⟨d, a, htext, hn⟩
    have hpos := c.utf8Size_pos
    rcases List.append_eq_append_iff.mp htext with ⟨e, rfl, he⟩ | ⟨e, rfl, he⟩
    · -- the boundary is after `done`, so it is after `c` too
      cases e with
      | nil => simp at hn
      | cons x e =>
        obtain ⟨rfl, -⟩ := List.cons.inj he
        simp only [byteLength_append, byteLength_cons] at hn
        omega
    · simp only [byteLength_append] at hn
      omega
  · intro hc
    exact ⟨done ++ [c], ahead, by simp, by simp [hc]⟩

end Boundaries

/-! ## Lines of a file -/

namespace Source

variable {source : Source} {i n : Nat} {line : List Char}

theorem exists_around_line (h : source.line? i = some line) : ∃ before after,
    source.text.toList = before ++ (line ++ after) ∧ (source.lineSpan i).start = byteLength before := by
  obtain ⟨l, hl, rfl⟩ := Option.map_eq_some_iff.mp h
  obtain ⟨before, after, htext, hstart⟩ := (standsIn_of_mem (mem_linesFrom hl).1).1
  rw [Nat.zero_add] at hstart
  exact ⟨before, after, htext, by rw [lineSpan_of_getElem? hl, TextLine.span, hstart]⟩

/-- A boundary of a line, counted from where the line starts, is one of the text. -/
theorem boundary_of_line (h : source.line? i = some line) (hn : Boundary line n) :
    Boundary source.text.toList ((source.lineSpan i).start + n) := by
  obtain ⟨before, after, htext, hstart⟩ := exists_around_line h
  rw [htext, hstart]
  exact hn.of_part before after

/-- The ends of a line are boundaries. -/
theorem boundary_lineSpan (source : Source) (i : Nat) : Boundary source.text.toList (source.lineSpan i).start ∧
    Boundary source.text.toList (source.lineSpan i).stop := by
  cases h : source.line? i with
  | none =>
    have hend : source.lineSpan i = ⟨source.byteSize, source.byteSize⟩ :=
      lineSpan_of_size_le (List.getElem?_eq_none_iff.mp (Option.map_eq_none_iff.mp h))
    rw [hend]
    exact ⟨boundary_byteLength _, boundary_byteLength _⟩
  | some line =>
    rw [Diagnostic.lineSpan_stop, h]
    exact ⟨boundary_of_line h (boundary_zero line), boundary_of_line h (boundary_byteLength line)⟩

end Source

/-! ## Marks -/

namespace Diagnostic

/-- Reading the line breaks off at a character of several bytes, and the line holds no connective to be transcribed. -/
def WideAt (line : List Char) (place : Nat) : Prop :=
  toAscii line = line ∧ ∃ done c ahead, line = done ++ c :: ahead ∧ place = byteLength done ∧ 1 < c.utf8Size

/-- The error is that its line cannot be read, which breaks off at a character of several bytes. -/
def BreaksAtWide (source : Source) (e : VerificationError) : Prop :=
  ∃ m line, e.cause = .layout (.malformed m) ∧ source.line? e.source = some line ∧ WideAt line m.place

section Column

variable {source : Source} {i : Nat} {m : Mismatch} {done ahead : List Char} {c : Char}

theorem wideAt_cons_iff (hascii : toAscii (done ++ c :: ahead) = done ++ c :: ahead) :
    WideAt (done ++ c :: ahead) (byteLength done) ↔ c.utf8Size ≠ 1 := by
  have hpos := c.utf8Size_pos
  constructor
  · rintro ⟨-, done', c', ahead', hline, hplace, hc⟩
    obtain ⟨-, hrest⟩ := append_inj_of_byteLength hline hplace
    obtain ⟨rfl, -⟩ := List.cons.inj hrest
    omega
  · intro hc
    exact ⟨hascii, done, c, ahead, rfl, rfl, by omega⟩

theorem not_wideAt_end (line : List Char) : ¬ WideAt line (byteLength line) := by
  rintro ⟨-, done, c, ahead, hline, hplace, hc⟩
  rw [hline, byteLength_append, byteLength_cons] at hplace
  omega

/-- The column is one byte wide, unless the line ends there. -/
theorem mismatchSpan_eq (hline : source.line? i = some (done ++ ahead))
    (hascii : toAscii (done ++ ahead) = done ++ ahead) (hplace : m.place = byteLength done) :
    mismatchSpan source i m = ⟨(source.lineSpan i).start + byteLength done,
      (source.lineSpan i).start + byteLength done + min 1 (byteLength ahead)⟩ := by
  have hstop := lineSpan_stop source i
  have hle : byteLength done ≤ byteLength (done ++ ahead) := by
    rw [byteLength_append]
    omega
  unfold mismatchSpan
  simp only [hline, Option.getD_some, hplace, byteLength_append] at hstop hle ⊢
  rw [if_pos ⟨hascii, hle⟩, Span.mk.injEq]
  omega

/-- **The mark at a column starts at a boundary, and ends at one unless a character of several bytes is there.** -/
theorem boundary_mismatchSpan {line : List Char} (hline : source.line? i = some line)
    (hplace : Boundary (toAscii line) m.place) :
    Boundary source.text.toList (mismatchSpan source i m).start ∧
      (Boundary source.text.toList (mismatchSpan source i m).stop ↔ ¬ WideAt line m.place) := by
  by_cases hascii : toAscii line = line
  · rw [hascii] at hplace
    obtain ⟨done, ahead, rfl, hm⟩ := hplace
    have hstart : Boundary source.text.toList ((source.lineSpan i).start + byteLength done) :=
      source.boundary_of_line hline ⟨done, ahead, rfl, rfl⟩
    rw [mismatchSpan_eq hline hascii hm, hm]
    refine ⟨hstart, ?_⟩
    cases ahead with
    | nil =>
      rw [List.append_nil]
      exact iff_of_true hstart (not_wideAt_end done)
    | cons c ahead =>
      obtain ⟨before, after, htext, hbefore⟩ := source.exists_around_line hline
      have hone : min 1 (byteLength (c :: ahead)) = 1 := by
        have hpos := c.utf8Size_pos
        rw [byteLength_cons]
        omega
      have hcut := boundary_succ_iff (before ++ done) c (ahead ++ after)
      rw [byteLength_append, List.append_assoc] at hcut
      rw [wideAt_cons_iff hascii, not_not, hone, htext, hbefore, List.append_assoc, List.cons_append]
      exact hcut
  · have hspan : mismatchSpan source i m = source.lineSpan i := by simp [mismatchSpan, hline, hascii]
    rw [hspan]
    obtain ⟨hstart, hstop⟩ := source.boundary_lineSpan i
    exact ⟨hstart, fun _ hwide => hascii hwide.1, fun _ => hstop⟩

end Column

section Errors

variable {library : Library} {task : Task} {source : Source} {e : VerificationError} {m : Mismatch}

theorem breaksAtWide_iff {line : List Char} (hcause : e.cause = .layout (.malformed m))
    (hline : source.line? e.source = some line) : BreaksAtWide source e ↔ WideAt line m.place := by
  constructor
  · rintro ⟨m', line', hcause', hline', hwide⟩
    rw [hcause] at hcause'
    rw [hline] at hline'
    cases hcause'
    cases hline'
    exact hwide
  · exact fun hwide => ⟨m, line, hcause, hline, hwide⟩

theorem marks_of_malformed (h : e.cause = .layout (.malformed m)) :
    (ofError library source e).marks = [here m.message (mismatchSpan source e.source m)] := by
  simp [ofError, h, explainLayout]

theorem span_of_mem_here {label : String} {span : Span} {mark : Mark} (h : mark ∈ [here label span]) :
    mark.span = span := by
  rw [List.mem_singleton.mp h]
  rfl

theorem span_of_mem_citationMarks {label : String} {c : Citation} {mark : Mark}
    (h : mark ∈ citationMarks source label c) : ∃ i, mark.span = source.lineSpan i := by
  obtain ⟨i, -, rfl⟩ := List.mem_map.mp h
  exact ⟨i, rfl⟩

theorem span_of_mem_explainCheck {i : Nat} {step : Option Step} {cause : CheckError} {mark : Mark}
    (h : mark ∈ (explainCheck library source i step cause).1) : ∃ j, mark.span = source.lineSpan j := by
  cases cause with
  | invalidNumbering expected => exact ⟨i, span_of_mem_here h⟩
  | inaccessible c =>
    rcases List.mem_cons.mp h with rfl | h
    · exact ⟨i, rfl⟩
    · exact span_of_mem_citationMarks h
  | invalidApplication rule error =>
    rcases List.mem_cons.mp h with rfl | h
    · exact ⟨i, rfl⟩
    · obtain ⟨c, -, hc⟩ := List.mem_flatMap.mp h
      exact span_of_mem_citationMarks hc
  | invalidPremise s => exact ⟨i, span_of_mem_here h⟩
  | missingConclusion s =>
    simp only [explainCheck] at h
    split at h
    · cases h
    · exact ⟨i, span_of_mem_here h⟩

theorem span_of_mem_explainLayout {i : Nat} {line : Option Line} {cause : LayoutError} {mark : Mark}
    (hcause : ∀ m, cause ≠ .malformed m) (h : mark ∈ (explainLayout source i line cause).1) :
    mark.span = source.lineSpan i := by
  cases cause with
  | malformed m => exact absurd rfl (hcause m)
  | expectedSeparator => exact span_of_mem_here h
  | expectedSeparatorOrPremise =>
    simp only [explainLayout] at h
    split at h <;> exact span_of_mem_here h
  | invalidDepth => rcases line with _ | _ | s <;> exact span_of_mem_here h
  | unknownRule name => rcases line with _ | _ | s <;> exact span_of_mem_here h
  | expectedPremise => exact span_of_mem_here h
  | expectedAssumption => exact span_of_mem_here h

/-- All marks but the column of a line that cannot be read are lines. -/
theorem span_of_mem_marks {mark : Mark} (hcause : ∀ m, e.cause ≠ .layout (.malformed m))
    (h : mark ∈ (ofError library source e).marks) : ∃ i, mark.span = source.lineSpan i := by
  unfold ofError at h
  cases hc : e.cause with
  | layout cause =>
    rw [hc] at h
    exact ⟨e.source, span_of_mem_explainLayout (fun m hm => hcause m (by rw [hc, hm])) h⟩
  | check cause =>
    rw [hc] at h
    exact span_of_mem_explainCheck h

/-- Where a line is malformed, it is the text there that cannot be read. -/
theorem parse_of_malformed {lines : List String} (h : verify library task lines = .error e)
    (hcause : e.cause = .layout (.malformed m)) : ∃ text err, lines[e.source]? = some text ∧
      Line.parse text e.source = .error err ∧ err.mismatch = m := by
  rcases verify_eq_error h with hread | ⟨p, e', -, rfl, -⟩
  · obtain ⟨e', rfl, hstop⟩ := readProof_eq_error hread
    cases hstop with
    | @atLine front rest bad _ _ _ hbad _ =>
      have hat : (front ++ bad :: rest)[0 + front.length]? = some bad := by simp
      cases hbad with
      | @unreadable err hp =>
        cases hcause
        exact ⟨bad, err, hat, hp, rfl⟩
      | misplaced cause _ hfits =>
        cases hcause
        exact absurd rfl (hfits m)
    | atEnd hend _ =>
      cases hcause
      rcases hend with hend | hend <;> cases hend
  · cases hcause

/-- The place where a malformed line breaks off is a boundary of the line as it is transcribed. -/
theorem exists_line_of_malformed (h : verify library task source.asciiLines = .error e)
    (hcause : e.cause = .layout (.malformed m)) :
    ∃ line, source.line? e.source = some line ∧ Boundary (toAscii line) m.place := by
  obtain ⟨text, err, htext, hparse, rfl⟩ := parse_of_malformed h hcause
  rw [Source.asciiLines, List.getElem?_map, Option.map_eq_some_iff] at htext
  obtain ⟨line, hline, rfl⟩ := htext
  refine ⟨line.chars, by rw [Source.line?, hline]; rfl, ?_⟩
  have hplace := Line.boundary_of_parse hparse
  rwa [String.toList_ofList] at hplace

end Errors

end Diagnostic

/-- **Exactly when the marks of a diagnostic cut no character.**  All marks start at boundaries of the text.  They all
end at boundaries too, unless the fault is a line that cannot be read, holds no connective to be transcribed, and breaks
off at a character of several bytes; then the mark ends inside of that character. -/
theorem diagnostic_boundaries {library : Library} {task : Task} {source : Source} {e : VerificationError}
    (h : verify library task source.asciiLines = .error e) :
    (∀ mark ∈ (Diagnostic.ofError library source e).marks,
      String.Pos.Raw.IsValid source.text ⟨mark.span.start⟩) ∧
    ((∀ mark ∈ (Diagnostic.ofError library source e).marks,
      String.Pos.Raw.IsValid source.text ⟨mark.span.stop⟩) ↔ ¬ Diagnostic.BreaksAtWide source e) := by
  simp only [isValid_iff_boundary]
  by_cases hmalformed : ∃ m, e.cause = .layout (.malformed m)
  · obtain ⟨m, hm⟩ := hmalformed
    obtain ⟨line, hline, hplace⟩ := Diagnostic.exists_line_of_malformed h hm
    rw [Diagnostic.marks_of_malformed hm, Diagnostic.breaksAtWide_iff hm hline]
    simp only [List.forall_mem_singleton]
    exact Diagnostic.boundary_mismatchSpan hline hplace
  · have hlines : ∀ mark ∈ (Diagnostic.ofError library source e).marks, ∃ i, mark.span = source.lineSpan i :=
      fun mark hmark => Diagnostic.span_of_mem_marks (fun m hm => hmalformed ⟨m, hm⟩) hmark
    refine ⟨fun mark hmark => ?_, iff_of_true (fun mark hmark => ?_) ?_⟩
    · obtain ⟨i, hi⟩ := hlines mark hmark
      exact hi ▸ (source.boundary_lineSpan i).1
    · obtain ⟨i, hi⟩ := hlines mark hmark
      exact hi ▸ (source.boundary_lineSpan i).2
    · rintro ⟨m, line, hm, -⟩
      exact hmalformed ⟨m, hm⟩

/-- The same letter `é` is where two lines break off: one is marked as a whole for its connective, and in the other the
mark is inside of the letter. -/
theorem diagnostic_boundaries_accent :
    (∃ e, verify Library.builtin {} (Source.asciiLines ⟨"proof.nd", "|1 p ∧ é V"⟩) = .error e ∧
      ∀ mark ∈ (Diagnostic.ofError Library.builtin ⟨"proof.nd", "|1 p ∧ é V"⟩ e).marks,
        String.Pos.Raw.IsValid "|1 p ∧ é V" ⟨mark.span.stop⟩) ∧
    ∃ e, verify Library.builtin {} (Source.asciiLines ⟨"proof.nd", "|1 p & é V"⟩) = .error e ∧
      ¬ ∀ mark ∈ (Diagnostic.ofError Library.builtin ⟨"proof.nd", "|1 p & é V"⟩ e).marks,
        String.Pos.Raw.IsValid "|1 p & é V" ⟨mark.span.stop⟩ := by
  have hwhole : verify Library.builtin {} (Source.asciiLines ⟨"proof.nd", "|1 p ∧ é V"⟩) =
      .error ⟨.layout (.malformed ⟨7, [.description "a sentence", .label "a proof line"]⟩), 0, none⟩ := by
    decide +kernel
  have hcut : verify Library.builtin {} (Source.asciiLines ⟨"proof.nd", "|1 p & é V"⟩) =
      .error ⟨.layout (.malformed ⟨7, [.description "a sentence", .label "a proof line"]⟩), 0, none⟩ := by
    decide +kernel
  have hline : Source.line? ⟨"proof.nd", "|1 p & é V"⟩ 0 = some ("|1 p & ".toList ++ 'é' :: " V".toList) := by
    decide +kernel
  refine ⟨⟨_, hwhole, (diagnostic_boundaries hwhole).2.mpr ?_⟩, _, hcut, fun hall => ?_⟩
  · rintro ⟨m, line, -, hline, hascii, -⟩
    have hsame : Source.line? ⟨"proof.nd", "|1 p ∧ é V"⟩ 0 = some "|1 p ∧ é V".toList := by decide +kernel
    rw [hsame] at hline
    cases hline
    exact absurd hascii (by decide +kernel)
  · refine (diagnostic_boundaries hcut).2.mp hall ⟨_, _, rfl, hline, by decide +kernel, _, _, _, rfl, ?_, ?_⟩
    · decide +kernel
    · decide +kernel

/-- A mark that ends inside of a letter. -/
theorem diagnostic_cuts_character :
    ∃ e, verify Library.builtin {} (Source.asciiLines ⟨"proof.nd", "é"⟩) = .error e ∧
      (Diagnostic.ofError Library.builtin ⟨"proof.nd", "é"⟩ e).marks =
        [⟨.error, "expected '|' at column 1", ⟨0, 1⟩⟩] ∧
      ¬ String.Pos.Raw.IsValid "é" ⟨1⟩ := by
  have he : verify Library.builtin {} (Source.asciiLines ⟨"proof.nd", "é"⟩) =
      .error ⟨.layout (.malformed ⟨0, [.char '|']⟩), 0, none⟩ := by decide +kernel
  exact ⟨_, he, by decide +kernel, by decide +kernel⟩

end Deduction
