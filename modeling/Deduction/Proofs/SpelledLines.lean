import Deduction.Proof.Check
import Deduction.Rule.Builtin
import Deduction.Proofs.SourceLines
import Deduction.Proofs.Transcription

/-!
# Proof files in either spelling

A proof file is cut into lines before its connectives are respelled.  The other order gives the same lines: respelling
neither makes nor loses white space, so line feeds, carriage returns and blank lines stay what they are, although the
bytes that the lines cover change.  What readers get therefore depends on the respelled text only.

* `map_toAscii_linesFrom`: cutting and respelling can be exchanged.
* `Source.asciiLines_eq_spelled`, `Source.lineNumbers_eq_spelled`: the lines and their numbers, from the respelled text.
* `spelling_never_matters`: files that differ in the spelling of connectives are read and judged alike.
-/

namespace Deduction

/-! ## White space -/

section Whitespace

variable {c x : Char} {line text : List Char}

theorem isBlank_asciiSpelling (c : Char) : isBlank (asciiSpelling c) = isWhitespace c := by
  fun_cases asciiSpelling c with
  | case6 => exact Bool.and_true _
  | _ => decide

theorem isBlank_toAscii (text : List Char) : isBlank (toAscii text) = isBlank text := by
  induction text with
  | nil => rfl
  | cons c text ih => rw [toAscii_cons, isBlank_append, isBlank_asciiSpelling, ih, isBlank_cons]

theorem eq_of_mem_asciiSpelling (hx : isWhitespace x = true) (h : x ∈ asciiSpelling c) : x = c := by
  rcases asciiSpelling_cases c with hc | hc
  · rw [hc] at h
    exact List.mem_singleton.mp h
  · rw [isWhitespace_of_visible (hc x h).1 (hc x h).2] at hx
    cases hx

/-- White space in the respelled text was there before. -/
theorem mem_of_mem_toAscii (hx : isWhitespace x = true) (h : x ∈ toAscii text) : x ∈ text := by
  obtain ⟨c, hc, hmem⟩ := List.mem_flatMap.mp h
  rw [eq_of_mem_asciiSpelling hx hmem]
  exact hc

end Whitespace

/-! ## Lines -/

section Lines

variable {line : List Char}

theorem dropReturn_concat_return (line : List Char) : dropReturn (line ++ ['\r']) = line := by
  simp [dropReturn]

theorem dropReturn_append_of_not_mem {ending : List Char} (hne : ending ≠ []) (h : '\r' ∉ ending) :
    dropReturn (line ++ ending) = line ++ ending := by
  refine if_neg fun hlast => h ?_
  rw [List.getLast?_append_of_ne_nil _ hne] at hlast
  exact List.mem_of_getLast? hlast

/-- A carriage return at the end of a line stays there, and no other character becomes one. -/
theorem dropReturn_toAscii (line : List Char) : dropReturn (toAscii line) = toAscii (dropReturn line) := by
  rcases List.eq_nil_or_concat' line with rfl | ⟨front, c, rfl⟩
  · rfl
  · by_cases hc : c = '\r'
    · subst hc
      rw [dropReturn_concat_return, toAscii_append]
      exact dropReturn_concat_return _
    · have hsame : '\r' ∉ [c] := fun h => hc (List.mem_singleton.mp h).symm
      have hspelled : '\r' ∉ toAscii [c] := fun h => hsame (mem_of_mem_toAscii (by decide) h)
      have hne : toAscii [c] ≠ [] := by
        rw [toAscii_cons, toAscii_nil, List.append_nil]
        exact asciiSpelling_ne_nil c
      rw [dropReturn_append_of_not_mem (List.cons_ne_nil c []) hsame, toAscii_append,
        dropReturn_append_of_not_mem hne hspelled]

theorem feed_not_mem_toAscii (h : '\n' ∉ line) : '\n' ∉ toAscii line :=
  fun hmem => h (mem_of_mem_toAscii (by decide) hmem)

/-- **Cutting a text into lines and respelling it can be exchanged**, the places of the lines apart. -/
theorem map_toAscii_linesFrom (text : List Char) (i j : Nat) :
    (linesFrom i text).map (fun line => toAscii line.chars) = (linesFrom j (toAscii text)).map TextLine.chars := by
  induction text using lines_induction generalizing i j with
  | last line hno => rw [linesFrom_of_not_mem hno, linesFrom_of_not_mem (feed_not_mem_toAscii hno)]; rfl
  | ended line rest hno ih =>
    have hfeed : toAscii (line ++ '\n' :: rest) = toAscii line ++ '\n' :: toAscii rest := by
      rw [toAscii_append, toAscii_cons]
      rfl
    rw [hfeed, linesFrom_append hno, linesFrom_append (feed_not_mem_toAscii hno), dropReturn_toAscii, List.map_cons,
      List.map_cons, ih]

end Lines

/-! ## Proof files -/

namespace Source

/-- The numbers, among all lines of the text, of those that are not blank.  They count from zero. -/
def lineNumbers (s : Source) : List Nat :=
  ((textLines s.text.toList).zipIdx.filter fun e => !isBlank e.1.chars).map Prod.snd

/-- The lines of the respelled text, blank ones included. -/
def spelledLines (text : List Char) : List (List Char) := (textLines (toAscii text)).map TextLine.chars

theorem spelledLines_eq (text : List Char) : spelledLines text = (textLines text).map fun line => toAscii line.chars :=
  (map_toAscii_linesFrom text 0 0).symm

theorem asciiLines_eq_spelled (s : Source) :
    s.asciiLines = ((spelledLines s.text.toList).filter fun line => !isBlank line).map String.ofList := by
  rw [spelledLines_eq, List.filter_map, List.map_map]
  simp only [Function.comp_def, isBlank_toAscii]
  rfl

theorem lineNumbers_eq_spelled (s : Source) :
    s.lineNumbers = ((spelledLines s.text.toList).zipIdx.filter fun e => !isBlank e.1).map Prod.snd := by
  rw [spelledLines_eq, List.zipIdx_map, List.filter_map, List.map_map]
  simp only [Function.comp_def, Prod.map_fst, Prod.map_snd, isBlank_toAscii, id]
  rfl

/-- The same lines are read from both proof files, with the same numbers, and they are judged alike. -/
structure ReadAlike (s s' : Source) : Prop where
  lines : s.asciiLines = s'.asciiLines
  /-- The number of lines that are not blank. -/
  size : s.size = s'.size
  numbers : s.lineNumbers = s'.lineNumbers
  /-- The proof that is accepted, or the error with its line. -/
  verdict : ∀ library task, verify library task s.asciiLines = verify library task s'.asciiLines

theorem readAlike_of_toAscii_eq {s s' : Source} (h : toAscii s.text.toList = toAscii s'.text.toList) :
    s.ReadAlike s' := by
  have hspelled : spelledLines s.text.toList = spelledLines s'.text.toList := by rw [spelledLines, h, spelledLines]
  have hlines : s.asciiLines = s'.asciiLines := by rw [asciiLines_eq_spelled, hspelled, asciiLines_eq_spelled]
  have hsize : ∀ s : Source, s.size = s.asciiLines.length := fun s => (List.length_map _).symm
  refine ⟨hlines, by rw [hsize, hlines, hsize], ?_, fun library task => by rw [hlines]⟩
  rw [lineNumbers_eq_spelled, hspelled, lineNumbers_eq_spelled]

end Source

/-- **The spelling of the connectives never matters.**  A proof file is read and judged as the same file in ASCII
spelling, and as every file that becomes the same text in ASCII spelling: the lines are the same, they have the same
numbers, and for every library and task the check yields the same proof or the same error at the same line. -/
theorem spelling_never_matters (origin text : String) :
    Source.ReadAlike ⟨origin, String.ofList (toAscii text.toList)⟩ ⟨origin, text⟩ ∧
    ∀ origin' text' : String, toAscii text'.toList = toAscii text.toList →
      Source.ReadAlike ⟨origin', text'⟩ ⟨origin, text⟩ := by
  constructor
  · refine Source.readAlike_of_toAscii_eq ?_
    rw [String.toList_ofList, toAscii_toAscii]
  · intro origin' text' h
    exact Source.readAlike_of_toAscii_eq h

/-- Half a connective in Unicode spelling, line endings of both kinds, and a blank line that takes three bytes. -/
theorem spelling_never_matters_half_respelled :
    toAscii "\n|1 p <→ q V\r\n\u3000\n|-\n|2 p → q -Ä(1)\n".toList =
      toAscii "\n|1 p ↔ q V\r\n\u3000\n|-\n|2 p -> q -Ä(1)\n".toList ∧
    Source.lineNumbers ⟨"mixed.nd", "\n|1 p <→ q V\r\n\u3000\n|-\n|2 p → q -Ä(1)\n"⟩ = [1, 3, 4] ∧
    ∃ p, verify Library.builtin {} (Source.asciiLines
        ⟨"unicode.nd", "\n|1 p ↔ q V\r\n\u3000\n|-\n|2 p -> q -Ä(1)\n"⟩) = .ok p ∧
      verify Library.builtin {} (Source.asciiLines
        ⟨"mixed.nd", "\n|1 p <→ q V\r\n\u3000\n|-\n|2 p → q -Ä(1)\n"⟩) = .ok p := by
  let s : Source := ⟨"unicode.nd", "\n|1 p ↔ q V\r\n\u3000\n|-\n|2 p -> q -Ä(1)\n"⟩
  let mixed : Source := ⟨"mixed.nd", "\n|1 p <→ q V\r\n\u3000\n|-\n|2 p → q -Ä(1)\n"⟩
  let p : Proof := ⟨[⟨0, 0, 1, .binary .equivalent (.atom 'p') (.atom 'q'), ⟨"V", []⟩⟩,
    ⟨2, 1, 1, .binary .follows (.atom 'p') (.atom 'q'), ⟨"-Ä", [.line 0]⟩⟩]⟩
  have hsame : toAscii mixed.text.toList = toAscii s.text.toList := by decide
  have halike := (spelling_never_matters s.origin s.text).2 mixed.origin mixed.text hsame
  have hnumbers : s.lineNumbers = [1, 3, 4] := by decide
  have hp : verify Library.builtin {} s.asciiLines = .ok p := by decide +kernel
  exact ⟨hsame, halike.numbers.trans hnumbers, p, hp, (halike.verdict Library.builtin {}).trans hp⟩

end Deduction
