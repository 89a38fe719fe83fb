import Mathlib.Tactic.Common
import Mathlib.Data.List.Basic
import Deduction.Source

/-!
# The lines of a proof file

A text is cut at its line feeds, and the lines that are not blank are kept with the bytes that they cover.  Everything
here follows the cutting: a text either has no line feed or is a first line, a line feed and the rest.

* `lines_induction`: the induction along the line feeds.
* `standsIn_of_mem`, `pairwise_linesFrom`, `exists_mem_linesFrom`: lines stand in the text, one after the other, and
  only white space is left out.
* `plainLines`: the lines of a text without their places.
* `source_lines_faithful`: what the lines of a proof file have to do with its text.
-/

namespace Deduction

/-- The lines of a text without their endings.  A line ends with a line feed, or with a carriage return and a line feed;
the last line need not have an ending. -/
def plainLines : List Char → List (List Char)
  | [] => []
  | '\r' :: '\n' :: rest => [] :: plainLines rest
  | c :: rest =>
    if c = '\n' then [] :: plainLines rest
    else match plainLines rest with
      | [] => [[c]]
      | line :: lines => (c :: line) :: lines

/-- The lines of a text whose first byte is byte `start`. -/
def linesFrom (start : Nat) (text : List Char) : List TextLine := locateLines start (segments text)

/-- The line is a part of the text, whose first byte is byte `start`. -/
def TextLine.StandsIn (start : Nat) (text : List Char) (line : TextLine) : Prop :=
  ∃ before after, text = before ++ (line.chars ++ after) ∧ line.start = start + byteLength before

/-! ## Cutting at line feeds -/

@[elab_as_elim]
theorem lines_induction {motive : List Char → Prop} (last : ∀ line, '\n' ∉ line → motive line)
    (ended : ∀ line rest, '\n' ∉ line → motive rest → motive (line ++ '\n' :: rest)) (text : List Char) :
    motive text := by
  induction hn : text.length using Nat.strongRecOn generalizing text with
  | ind n ih =>
    by_cases h : '\n' ∈ text
    · obtain ⟨line, rest, rfl, hline⟩ := List.eq_append_cons_of_mem h
      rw [List.length_append, List.length_cons] at hn
      exact ended line rest hline (ih rest.length (by omega) rest rfl)
    · exact last text h

section Segments

variable {line rest : List Char} {start : Nat}

theorem segments_ne_nil (text : List Char) : segments text ≠ [] := by
  cases text with
  | nil => simp [segments]
  | cons c text =>
    unfold segments
    split
    · simp
    · split <;> simp

theorem segments_of_not_mem (h : '\n' ∉ line) : segments line = [line] := by
  induction line with
  | nil => rfl
  | cons c line ih =>
    rw [List.mem_cons, not_or] at h
    rw [segments, if_neg (Ne.symm h.1), ih h.2]

theorem segments_append (h : '\n' ∉ line) : segments (line ++ '\n' :: rest) = line :: segments rest := by
  induction line with
  | nil => rfl
  | cons c line ih =>
    rw [List.mem_cons, not_or] at h
    rw [List.cons_append, segments, if_neg (Ne.symm h.1), ih h.2]

theorem linesFrom_of_not_mem (h : '\n' ∉ line) : linesFrom start line = [⟨start, line⟩] := by
  rw [linesFrom, segments_of_not_mem h, locateLines]

theorem linesFrom_append (h : '\n' ∉ line) : linesFrom start (line ++ '\n' :: rest) =
    ⟨start, dropReturn line⟩ :: linesFrom (start + byteLength line + 1) rest := by
  rw [linesFrom, segments_append h, linesFrom]
  cases hs : segments rest with
  | nil => exact absurd hs (segments_ne_nil rest)
  | cons next more => rw [locateLines]; simp

theorem byteLength_append_feed (line rest : List Char) :
    byteLength (line ++ '\n' :: rest) = byteLength line + 1 + byteLength rest := by
  have hfeed : '\n'.utf8Size = 1 := by decide
  rw [byteLength_append, byteLength_cons, hfeed, Nat.add_assoc]

theorem byteLength_pos {text : List Char} (h : text ≠ []) : 0 < byteLength text := by
  cases text with
  | nil => exact absurd rfl h
  | cons c text =>
    have hc := c.utf8Size_pos
    rw [byteLength_cons]
    omega

/-- A carriage return is all that may be missing from a line. -/
theorem eq_dropReturn_append (line : List Char) :
    ∃ ending, line = dropReturn line ++ ending ∧ (ending = [] ∨ ending = ['\r']) := by
  unfold dropReturn
  by_cases h : line.getLast? = some '\r'
  · rw [if_pos h]
    exact ⟨['\r'], (List.dropLast_append_getLast? '\r' h).symm, Or.inr rfl⟩
  · rw [if_neg h]
    exact ⟨[], (List.append_nil line).symm, Or.inl rfl⟩

/-- What is not white space is kept, at its place. -/
theorem dropReturn_eq_append {before after : List Char} {c : Char} (hc : isWhitespace c = false) :
    ∃ after', dropReturn (before ++ c :: after) = before ++ c :: after' := by
  unfold dropReturn
  by_cases h : (before ++ c :: after).getLast? = some '\r'
  · rw [if_pos h]
    refine ⟨after.dropLast, ?_⟩
    have hne : after ≠ [] := by
      rintro rfl
      rw [List.getLast?_concat, Option.some.injEq] at h
      rw [h] at hc
      exact absurd hc (by decide)
    rw [List.dropLast_append_of_ne_nil (List.cons_ne_nil c after), List.dropLast_cons_of_ne_nil hne]
  · rw [if_neg h]
    exact ⟨after, rfl⟩

end Segments

/-! ## Lines in their text -/

section Places

variable {start : Nat} {text : List Char} {line : TextLine}

theorem standsIn_of_mem (h : line ∈ linesFrom start text) : line.StandsIn start text ∧ '\n' ∉ line.chars := by
  induction text using lines_induction generalizing start with
  | last text hno =>
    rw [linesFrom_of_not_mem hno, List.mem_singleton] at h
    subst h
    exact ⟨⟨[], [], by simp, by simp⟩, hno⟩
  | ended first rest hno ih =>
    obtain ⟨ending, hfirst, -⟩ := eq_dropReturn_append first
    rw [linesFrom_append hno, List.mem_cons] at h
    rcases h with rfl | h
    · refine ⟨⟨[], ending ++ '\n' :: rest, ?_, by simp⟩, fun hmem => hno ?_⟩
      · rw [List.nil_append, ← List.append_assoc, ← hfirst]
      · rw [hfirst]
        exact List.mem_append_left _ hmem
    · obtain ⟨⟨before, after, rfl, hstart⟩, hline⟩ := ih h
      refine ⟨⟨first ++ '\n' :: before, after, by simp, ?_⟩, hline⟩
      rw [byteLength_append_feed]
      omega

theorem TextLine.StandsIn.bounds (h : line.StandsIn start text) :
    start ≤ line.span.start ∧ line.span.start ≤ line.span.stop ∧ line.span.stop ≤ start + byteLength text := by
  obtain ⟨before, after, rfl, hstart⟩ := h
  simp only [TextLine.span, byteLength_append]
  omega

/-- A line feed lies between a line and the next. -/
theorem pairwise_linesFrom (start : Nat) (text : List Char) :
    (linesFrom start text).Pairwise fun a b => a.span.stop < b.span.start := by
  induction text using lines_induction generalizing start with
  | last text hno =>
    rw [linesFrom_of_not_mem hno]
    exact List.pairwise_singleton _ _
  | ended first rest hno ih =>
    rw [linesFrom_append hno]
    refine List.pairwise_cons.mpr ⟨fun b hb => ?_, ih _⟩
    have hbounds := (standsIn_of_mem hb).1.bounds
    obtain ⟨ending, hfirst, -⟩ := eq_dropReturn_append first
    have hsize : byteLength first = byteLength (dropReturn first) + byteLength ending := by
      rw [← byteLength_append, ← hfirst]
    show start + byteLength (dropReturn first) < b.span.start
    omega

/-- Every character that is not white space stands in a line, at its place in the text. -/
theorem exists_mem_linesFrom (start : Nat) {before after : List Char} {c : Char} (htext : text = before ++ c :: after)
    (hc : isWhitespace c = false) : ∃ line ∈ linesFrom start text, ∃ left right, line.chars = left ++ c :: right ∧
      line.start + byteLength left = start + byteLength before := by
  have hne : c ≠ '\n' := by
    rintro rfl
    exact absurd hc (by decide)
  induction text using lines_induction generalizing start before with
  | last text hno =>
    rw [linesFrom_of_not_mem hno]
    exact ⟨_, List.mem_singleton_self _, before, after, htext, rfl⟩
  | ended first rest hno ih =>
    rw [linesFrom_append hno]
    rcases List.append_eq_append_iff.mp htext with ⟨front, rfl, hrest⟩ | ⟨back, rfl, hback⟩
    · -- the character comes after the first line
      cases front with
      | nil => exact absurd (List.cons_eq_cons.mp hrest).1.symm hne
      | cons feed front =>
        obtain ⟨rfl, rfl⟩ := List.cons_eq_cons.mp hrest
        obtain ⟨line, hline, left, right, hchars, hplace⟩ := ih (start + byteLength first + 1) rfl
        refine ⟨line, List.mem_cons_of_mem _ hline, left, right, hchars, ?_⟩
        rw [byteLength_append_feed]
        omega
    · -- the character is in the first line
      cases back with
      | nil => exact absurd (List.cons_eq_cons.mp hback).1 hne
      | cons _ back =>
        obtain ⟨rfl, -⟩ := List.cons_eq_cons.mp hback
        obtain ⟨right, hright⟩ := @dropReturn_eq_append before back c hc
        exact ⟨_, List.mem_cons_self, before, right, hright, rfl⟩

end Places

/-! ## Lines without their places -/

section PlainLines

variable {line rest : List Char}

theorem plainLines_of_not_mem (h : '\n' ∉ line) (hne : line ≠ []) : plainLines line = [line] := by
  induction line with
  | nil => exact absurd rfl hne
  | cons c line ih =>
    rw [List.mem_cons, not_or] at h
    rw [plainLines, if_neg (Ne.symm h.1)]
    · cases line with
      | nil => rfl
      | cons d line => rw [ih h.2 (List.cons_ne_nil d line)]
    · rintro rest - rfl
      exact h.2 List.mem_cons_self

theorem dropReturn_cons {c : Char} (h : line ≠ [] ∨ c ≠ '\r') : dropReturn (c :: line) = c :: dropReturn line := by
  cases line with
  | nil =>
    have hc : c ≠ '\r' := h.resolve_left fun hne => hne rfl
    simp [dropReturn, hc]
  | cons d line =>
    unfold dropReturn
    rw [List.getLast?_cons_cons, List.dropLast_cons_cons]
    split <;> rfl

theorem plainLines_append_feed (h : '\n' ∉ line) :
    plainLines (line ++ '\n' :: rest) = dropReturn line :: plainLines rest := by
  induction line with
  | nil =>
    rw [List.nil_append, plainLines, if_pos rfl]
    · rfl
    · intro rest' hr
      exact absurd hr (by decide)
  | cons c line ih =>
    rw [List.mem_cons, not_or] at h
    by_cases hr : line = [] ∧ c = '\r'
    · obtain ⟨rfl, rfl⟩ := hr
      rfl
    · have hcases : line ≠ [] ∨ c ≠ '\r' := by
        rwa [not_and_or] at hr
      rw [List.cons_append, plainLines, if_neg (Ne.symm h.1), ih h.2, dropReturn_cons hcases]
      rintro rest' rfl hrest
      -- a line feed right after the carriage return would be in the line
      cases line with
      | nil => exact hr ⟨rfl, rfl⟩
      | cons d line =>
        rw [(List.cons_eq_cons.mp hrest).1] at h
        exact h.2 List.mem_cons_self

theorem plainLines_append {before : List Char} (h : before = [] ∨ before.getLast? = some '\n') (after : List Char) :
    plainLines (before ++ after) = plainLines before ++ plainLines after := by
  induction before using lines_induction with
  | last line hno =>
    rcases h with rfl | h
    · rfl
    · exact absurd (List.mem_of_getLast? h) hno
  | ended line rest hno ih =>
    have hrest : rest = [] ∨ rest.getLast? = some '\n' := by
      cases rest with
      | nil => exact Or.inl rfl
      | cons c rest =>
        right
        rcases h with h | h
        · exact absurd h (by simp)
        · simpa using h
    rw [List.append_assoc, List.cons_append, plainLines_append_feed hno, plainLines_append_feed hno, ih hrest,
      List.cons_append]

/-- The lines that are not blank. -/
def filledLines (text : List Char) : List (List Char) := (plainLines text).filter fun line => !isBlank line

theorem filledLines_eq_filter (text : List Char) :
    filledLines text = (plainLines text).filter fun line => line.any fun c => !isWhitespace c := by
  refine List.filter_congr fun line _ => ?_
  rw [isBlank, List.not_all_eq_any_not]

theorem filledLines_append {before : List Char} (h : before = [] ∨ before.getLast? = some '\n') (after : List Char) :
    filledLines (before ++ after) = filledLines before ++ filledLines after := by
  unfold filledLines
  rw [plainLines_append h, List.filter_append]

theorem isBlank_dropReturn (h : isBlank line = true) : isBlank (dropReturn line) = true := by
  obtain ⟨ending, hline, -⟩ := eq_dropReturn_append line
  rw [hline, isBlank_append, Bool.and_eq_true] at h
  exact h.1

theorem filledLines_of_isBlank {text : List Char} (h : isBlank text = true) : filledLines text = [] := by
  induction text using lines_induction with
  | last line hno =>
    by_cases hne : line = []
    · rw [hne]
      rfl
    · simp [filledLines, plainLines_of_not_mem hno hne, h]
  | ended line rest hno ih =>
    rw [isBlank_append, isBlank_cons, Bool.and_eq_true, Bool.and_eq_true] at h
    have hfilled := ih h.2.2
    unfold filledLines at hfilled ⊢
    rw [plainLines_append_feed hno, List.filter_cons_of_neg, hfilled]
    simp [isBlank_dropReturn h.1]

/-- Blank lines in between are not seen. -/
theorem filledLines_insert {before blank : List Char} (h : before = [] ∨ before.getLast? = some '\n')
    (hblank : isBlank blank = true) (after : List Char) :
    filledLines (before ++ (blank ++ '\n' :: after)) = filledLines (before ++ after) := by
  have hended : blank ++ ['\n'] = [] ∨ (blank ++ ['\n']).getLast? = some '\n' := Or.inr List.getLast?_concat
  have hnone : filledLines (blank ++ ['\n']) = [] := by
    refine filledLines_of_isBlank ?_
    rw [isBlank_append, hblank]
    decide
  rw [filledLines_append h, filledLines_append h, ← List.singleton_append, ← List.append_assoc,
    filledLines_append hended, hnone, List.nil_append]

/-- Cutting with and without places gives the same lines, blank ones apart. -/
theorem filledLines_eq (start : Nat) (text : List Char) :
    ((linesFrom start text).filter fun line => !isBlank line.chars).map TextLine.chars = filledLines text := by
  induction text using lines_induction generalizing start with
  | last line hno =>
    rw [linesFrom_of_not_mem hno]
    by_cases hne : line = []
    · rw [hne]
      rfl
    · by_cases hb : isBlank line = true <;> simp [filledLines, plainLines_of_not_mem hno hne, hb]
  | ended line rest hno ih =>
    have hrest := ih (start + byteLength line + 1)
    unfold filledLines at hrest ⊢
    rw [linesFrom_append hno, plainLines_append_feed hno, List.filter_cons, List.filter_cons, ← hrest]
    split <;> rfl

end PlainLines

/-! ## Proof files -/

namespace Source

variable {s : Source} {i j : Nat} {line : TextLine}

theorem mem_linesFrom (h : s.lines[i]? = some line) :
    line ∈ linesFrom 0 s.text.toList ∧ isBlank line.chars = false := by
  have hmem := List.mem_filter.mp (List.mem_of_getElem? h)
  exact ⟨hmem.1, by simpa using hmem.2⟩

theorem lineSpan_of_getElem? (h : s.lines[i]? = some line) : s.lineSpan i = line.span := by
  simp [lineSpan, h]

theorem lineSpan_of_size_le (h : s.size ≤ i) : s.lineSpan i = ⟨s.byteSize, s.byteSize⟩ := by
  simp [lineSpan, List.getElem?_eq_none_iff.mpr h]

/-- Every line, the end of the text included, lies within the text. -/
theorem lineSpan_bounds (s : Source) (i : Nat) :
    (s.lineSpan i).start ≤ (s.lineSpan i).stop ∧ (s.lineSpan i).stop ≤ s.byteSize := by
  cases h : s.lines[i]? with
  | none => simp [lineSpan, h]
  | some line =>
    have hbounds := (standsIn_of_mem (mem_linesFrom h).1).1.bounds
    rw [Nat.zero_add] at hbounds
    rw [lineSpan_of_getElem? h]
    exact hbounds.2

theorem line?_eq (s : Source) (i : Nat) : s.line? i = (filledLines s.text.toList)[i]? := by
  rw [← filledLines_eq 0, List.getElem?_map]
  rfl

theorem asciiLines_eq (s : Source) :
    s.asciiLines = (filledLines s.text.toList).map fun line => String.ofList (toAscii line) := by
  rw [← filledLines_eq 0, List.map_map]
  rfl

theorem lineSpan_lt (hij : i < j) (hj : j < s.size) : (s.lineSpan i).stop < (s.lineSpan j).start := by
  have hpair : s.lines.Pairwise fun a b => a.span.stop < b.span.start := (pairwise_linesFrom 0 _).filter _
  have hi : i < s.lines.length := Nat.lt_trans hij hj
  rw [lineSpan_of_getElem? (List.getElem?_eq_getElem hi), lineSpan_of_getElem? (List.getElem?_eq_getElem hj)]
  exact List.pairwise_iff_getElem.mp hpair i j hi hj hij

/-- What is not white space is in one of the lines. -/
theorem exists_line_of_char {before after : List Char} {c : Char} (htext : s.text.toList = before ++ c :: after)
    (hc : isWhitespace c = false) : ∃ i < s.size, (s.lineSpan i).start ≤ byteLength before ∧
      byteLength (before ++ [c]) ≤ (s.lineSpan i).stop := by
  obtain ⟨line, hline, left, right, hchars, hplace⟩ := exists_mem_linesFrom 0 htext hc
  have hfilled : isBlank line.chars = false := by
    rw [hchars, isBlank_append, isBlank_cons, hc, Bool.false_and, Bool.and_false]
  have hmem : line ∈ s.lines := List.mem_filter.mpr ⟨hline, by simp [hfilled]⟩
  obtain ⟨i, hi⟩ := List.mem_iff_getElem?.mp hmem
  refine ⟨i, (List.getElem?_eq_some_iff.mp hi).1, ?_⟩
  rw [lineSpan_of_getElem? hi]
  simp only [TextLine.span, hchars, byteLength_append, byteLength_cons, byteLength_nil]
  omega

/-- The lines of a proof file are what its text holds, at the places where the text holds it. -/
structure Faithful (s : Source) : Prop where
  /-- A line is a part of the text, between characters, not empty and without line feeds. -/
  stands : ∀ i < s.size, ∃ before line after, s.text.toList = before ++ (line ++ after) ∧ s.line? i = some line ∧
    s.lineSpan i = ⟨byteLength before, byteLength (before ++ line)⟩ ∧
    (s.lineSpan i).start < (s.lineSpan i).stop ∧ '\n' ∉ line
  /-- Lines come one after the other. -/
  increasing : ∀ i j, i < j → j < s.size → (s.lineSpan i).stop < (s.lineSpan j).start
  /-- A character is white space or stands in exactly one line. -/
  covers : ∀ before c after, s.text.toList = before ++ c :: after → isWhitespace c = false →
    ∃! i, i < s.size ∧ (s.lineSpan i).start ≤ byteLength before ∧ byteLength (before ++ [c]) ≤ (s.lineSpan i).stop
  /-- Line `i` is the `i`-th line of the text that holds something other than white space. -/
  filled : ∀ i, s.line? i = ((plainLines s.text.toList).filter fun line => line.any fun c => !isWhitespace c)[i]?
  /-- Readers get these lines, all of them and in this order, with ASCII connectives. -/
  handed_on : s.asciiLines = ((plainLines s.text.toList).filter fun line => line.any fun c => !isWhitespace c).map
    fun line => String.ofList (toAscii line)
  /-- Past the last line there is the end of the text. -/
  past_end : ∀ i, s.size ≤ i → s.lineSpan i = ⟨s.byteSize, s.byteSize⟩
  /-- White space that makes up lines of its own is not seen by readers. -/
  inserted : ∀ before blank after, s.text.toList = before ++ after →
    (before = [] ∨ before.getLast? = some '\n') → (∀ c ∈ blank, isWhitespace c = true) →
    ({ s with text := String.ofList (before ++ (blank ++ '\n' :: after)) } : Source).asciiLines = s.asciiLines

end Source

/-- **No proof text is lost between a file and the checker.**  The lines that readers get are the lines of the text that
are not blank, in their order, each with the bytes it covers.  What is in none of them is white space, so blank lines
can be put between the lines of a text without any effect. -/
theorem source_lines_faithful (s : Source) : s.Faithful where
  stands i hi := by
    have hline : s.lines[i]? = some (s.lines.get ⟨i, hi⟩) := List.getElem?_eq_getElem hi
    obtain ⟨hmem, hfilled⟩ := Source.mem_linesFrom hline
    obtain ⟨⟨before, after, htext, hstart⟩, hfeed⟩ := standsIn_of_mem hmem
    rw [Nat.zero_add] at hstart
    refine ⟨before, _, after, htext, by rw [Source.line?, hline]; rfl, ?_, ?_, hfeed⟩
    · rw [Source.lineSpan_of_getElem? hline, TextLine.span, hstart, byteLength_append]
    · have hne : (s.lines.get ⟨i, hi⟩).chars ≠ [] := by
        intro hnil
        rw [hnil] at hfilled
        exact absurd hfilled (by decide)
      have hsize := byteLength_pos hne
      rw [Source.lineSpan_of_getElem? hline]
      exact Nat.lt_add_of_pos_right hsize
  increasing i j := Source.lineSpan_lt
  covers before c after htext hc := by
    obtain ⟨i, hi, hstart, hstop⟩ := Source.exists_line_of_char htext hc
    refine ⟨i, ⟨hi, hstart, hstop⟩, ?_⟩
    rintro j ⟨hj, hstart', hstop'⟩
    have hsize := byteLength_pos (List.cons_ne_nil c [])
    rw [byteLength_append] at hstop hstop'
    rcases Nat.lt_trichotomy i j with hij | rfl | hij
    · have := Source.lineSpan_lt hij hj
      omega
    · rfl
    · have := Source.lineSpan_lt hij hi
      omega
  filled i := by rw [Source.line?_eq, filledLines_eq_filter]
  handed_on := by rw [Source.asciiLines_eq, filledLines_eq_filter]
  past_end i := Source.lineSpan_of_size_le
  inserted before blank after htext hbefore hblank := by
    have hblank' : isBlank blank = true := List.all_eq_true.mpr hblank
    rw [Source.asciiLines_eq, Source.asciiLines_eq, String.toList_ofList, filledLines_insert hbefore hblank', htext]

/-- A text with a carriage return that ends a line, one that does not, and white space of three bytes. -/
theorem source_lines_faithful_mixed_endings :
    Source.asciiLines ⟨"proof.nd", "|1 p V\r\n\n\u3000|-\r"⟩ = ["|1 p V", "\u3000|-\r"] ∧
    (∃! i, i < Source.size ⟨"proof.nd", "|1 p V\r\n\n\u3000|-\r"⟩ ∧
      (Source.lineSpan ⟨"proof.nd", "|1 p V\r\n\n\u3000|-\r"⟩ i).start ≤ 13 ∧
      14 ≤ (Source.lineSpan ⟨"proof.nd", "|1 p V\r\n\n\u3000|-\r"⟩ i).stop) ∧
    Source.asciiLines ⟨"proof.nd", "|1 p V\r\n\u3000\r\n\n\u3000|-\r"⟩ =
      Source.asciiLines ⟨"proof.nd", "|1 p V\r\n\n\u3000|-\r"⟩ := by
  let s : Source := ⟨"proof.nd", "|1 p V\r\n\n\u3000|-\r"⟩
  have hchar := (source_lines_faithful s).covers "|1 p V\r\n\n\u3000|".toList '-' ['\r'] (by decide) (by decide)
  have hbefore : byteLength "|1 p V\r\n\n\u3000|".toList = 13 := by decide
  have hthrough : byteLength ("|1 p V\r\n\n\u3000|".toList ++ ['-']) = 14 := by decide
  rw [hbefore, hthrough] at hchar
  have hblank := (source_lines_faithful s).inserted "|1 p V\r\n".toList ['\u3000', '\r'] "\n\u3000|-\r".toList
    (by decide) (by decide) (List.all_eq_true.mp (by decide))
  exact ⟨(source_lines_faithful s).handed_on.trans (by decide), hchar, hblank⟩

end Deduction
