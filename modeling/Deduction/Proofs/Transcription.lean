import Deduction.Proofs.WrittenLines

/-!
# Both spellings of the connectives

`toAscii` works character by character, so it goes through any way of putting texts together.  `toUnicode` looks at up
to three characters at once, but what it writes has single characters for all connectives, and `toAscii` takes each of
them back.  Depth bars are safe because only the sentence of a step is respelled, rule names because no connective is an
alphabetic character.

* `toAscii_toUnicode`: on arbitrary texts, respelling in Unicode is undone.
* `not_infix_toUnicode`: no ASCII connective is left.
* `Step.toAscii_charsIn_unicode`: a step in Unicode spelling becomes its written form.
* `unicode_spelling_read_back`: sentences and steps in Unicode spelling are read back.
-/

namespace Deduction

/-- The ASCII spellings of the connectives: `!`, `<->`, `->`, `&` and `|`. -/
def asciiConnectives : List String := "!" :: Connective.all.map Connective.symbol

/-! ## From Unicode to ASCII -/

section ToAscii

variable {c x : Char} {s t text : List Char}

@[simp] theorem toAscii_nil : toAscii [] = [] := rfl

theorem toAscii_cons (c : Char) (text : List Char) : toAscii (c :: text) = asciiSpelling c ++ toAscii text :=
  List.flatMap_cons

theorem toAscii_append (s t : List Char) : toAscii (s ++ t) = toAscii s ++ toAscii t := List.flatMap_append

theorem asciiSpelling_of_lt (h : c.toNat < 0x80) : asciiSpelling c = [c] := by
  fun_cases asciiSpelling c with
  | case6 => rfl
  | _ => exact absurd h (by decide)

theorem asciiSpelling_of_isRuleChar (h : isRuleChar c = true) : asciiSpelling c = [c] := by
  fun_cases asciiSpelling c with
  | case6 => rfl
  | _ => exact absurd h (by decide +kernel)

theorem asciiSpelling_ne_nil (c : Char) : asciiSpelling c ≠ [] := by
  fun_cases asciiSpelling c <;> exact List.cons_ne_nil _ _

/-- A character stays as it is, or visible ASCII characters take its place. -/
theorem asciiSpelling_cases (c : Char) :
    asciiSpelling c = [c] ∨ ∀ x ∈ asciiSpelling c, 0x20 < x.toNat ∧ x.toNat < 0x7F := by
  have hall : asciiSpelling c = [c] ∨
      (asciiSpelling c).all (fun x => decide (0x20 < x.toNat ∧ x.toNat < 0x7F)) = true := by
    fun_cases asciiSpelling c with
    | case6 => exact Or.inl rfl
    | _ => exact Or.inr (by decide)
  refine hall.imp_right fun h x hx => ?_
  exact of_decide_eq_true (List.all_eq_true.mp h x hx)

/-- No character of a spelling is spelled differently itself. -/
theorem asciiSpelling_of_mem (h : x ∈ asciiSpelling c) : asciiSpelling x = [x] := by
  rcases asciiSpelling_cases c with hc | hc
  · rw [hc, List.mem_singleton] at h
    rw [h, hc]
  · have hx := hc x h
    exact asciiSpelling_of_lt (by omega)

theorem toAscii_eq_self (h : ∀ c ∈ text, asciiSpelling c = [c]) : toAscii text = text := by
  induction text with
  | nil => rfl
  | cons c text ih =>
    obtain ⟨hc, htext⟩ := List.forall_mem_cons.mp h
    rw [toAscii_cons, hc, ih htext, List.singleton_append]

theorem toAscii_toAscii (text : List Char) : toAscii (toAscii text) = toAscii text := by
  refine toAscii_eq_self fun x hx => ?_
  obtain ⟨c, -, hc⟩ := List.mem_flatMap.mp hx
  exact asciiSpelling_of_mem hc

end ToAscii

/-! ## From ASCII to Unicode -/

section ToUnicode

variable {text : List Char}

/-- **Respelling in Unicode is undone**, whatever spellings the text mixes. -/
theorem toAscii_toUnicode (text : List Char) : toAscii (toUnicode text) = toAscii text := by
  fun_induction toUnicode text with
  | case1 => rfl
  | case7 c rest _ _ _ _ _ ih => rw [toAscii_cons, toAscii_cons, ih]
  | _ rest ih =>
    -- a connective: both sides are its ASCII spelling and then the rest
    simp only [toAscii_cons, ih]
    rfl

theorem not_mem_toUnicode {x : Char} (hx : x = '!' ∨ x = '&' ∨ x = '|') (text : List Char) : x ∉ toUnicode text := by
  fun_induction toUnicode text with
  | case1 => exact List.not_mem_nil
  | case7 c rest _ _ hnot hand hor ih =>
    refine List.not_mem_cons_of_ne_of_not_mem ?_ ih
    rintro rfl
    rcases hx with h | h | h
    · exact hnot h
    · exact hand h
    · exact hor h
  | _ rest ih =>
    refine List.not_mem_cons_of_ne_of_not_mem ?_ ih
    rcases hx with rfl | rfl | rfl <;> decide

theorem arrow_infix_cons {c : Char} :
    ['-', '>'] <:+: c :: text ↔ (c = '-' ∧ text.head? = some '>') ∨ ['-', '>'] <:+: text := by
  have hhead : ['>'] <+: text ↔ text.head? = some '>' := by
    cases text with
    | nil => simp
    | cons d text => simp [eq_comm]
  rw [List.infix_cons_iff, List.cons_prefix_cons, hhead, eq_comm]

/-- Where the respelled text starts with `>`, so did the text. -/
theorem eq_cons_of_head?_toUnicode : (toUnicode text).head? = some '>' → ∃ rest, text = '>' :: rest := by
  fun_cases toUnicode text with
  | case7 c rest =>
    intro h
    exact ⟨rest, by rw [Option.some.inj h]⟩
  | _ => exact fun h => absurd h (by simp)

theorem not_arrow_infix_toUnicode (text : List Char) : ¬ ['-', '>'] <:+: toUnicode text := by
  fun_induction toUnicode text with
  | case1 => simp
  | case7 c rest _ hfollows _ _ _ ih =>
    rw [arrow_infix_cons]
    rintro (⟨rfl, hhead⟩ | harrow)
    · -- the arrow would have been respelled as a whole
      obtain ⟨rest', hrest⟩ := eq_cons_of_head?_toUnicode hhead
      exact hfollows rest' rfl hrest
    · exact ih harrow
  | _ rest ih =>
    rw [arrow_infix_cons]
    rintro (⟨hdash, -⟩ | harrow)
    · exact absurd hdash (by decide)
    · exact ih harrow

/-- **No ASCII connective is left in a respelled text.** -/
theorem not_infix_toUnicode (text : List Char) : ∀ symbol ∈ asciiConnectives, ¬ symbol.toList <:+: toUnicode text := by
  have hsingle : ∀ x : Char, x = '!' ∨ x = '&' ∨ x = '|' → ¬ [x] <:+: toUnicode text := fun x hx h =>
    not_mem_toUnicode hx text (h.subset (List.mem_singleton_self x))
  have harrow := not_arrow_infix_toUnicode text
  intro symbol hsymbol
  simp only [asciiConnectives, Connective.all, List.map_cons, List.map_nil, List.mem_cons, List.not_mem_nil,
    or_false] at hsymbol
  rcases hsymbol with rfl | rfl | rfl | rfl | rfl
  · exact hsingle '!' (Or.inl rfl)
  · -- the longest symbol ends with another one
    exact fun h => harrow (List.IsInfix.trans ⟨['<'], [], rfl⟩ h)
  · exact harrow
  · exact hsingle '&' (Or.inr (Or.inl rfl))
  · exact hsingle '|' (Or.inr (Or.inr rfl))

end ToUnicode

/-! ## Sentences and steps in Unicode spelling -/

namespace Sentence

variable {s : Sentence}

/-- A written sentence has ASCII characters only. -/
theorem toAscii_chars (hl : ∀ c ∈ s.occurrences, c.isLower = true) (hv : ∀ c ∈ s.variables, c.isUpper = true) :
    toAscii s.chars = s.chars := by
  induction s with
  | atom letter =>
    have hc := bounds_of_isLower (hl letter (List.mem_singleton_self letter))
    rw [chars, toAscii_cons, asciiSpelling_of_lt (by omega), toAscii_nil, List.append_nil]
  | var name =>
    have hc := bounds_of_isUpper (hv name (List.mem_singleton_self name))
    rw [chars, toAscii_cons, asciiSpelling_of_lt (by omega), toAscii_nil, List.append_nil]
  | not s ih =>
    rw [chars, toAscii_cons, ih hl hv]
    rfl
  | binary op lhs rhs ihl ihr =>
    have hlhs := ihl (fun c hc => hl c (List.mem_append_left _ hc)) fun c hc => hv c (List.mem_append_left _ hc)
    have hrhs := ihr (fun c hc => hl c (List.mem_append_right _ hc)) fun c hc => hv c (List.mem_append_right _ hc)
    have hop : toAscii op.symbol.toList = op.symbol.toList := by cases op <;> decide
    simp only [chars, List.cons_append, toAscii_cons, toAscii_append, hlhs, hrhs, hop]
    rfl

theorem toAscii_unicode (hg : s.isGround = true) (hl : ∀ c ∈ s.occurrences, c.isLower = true) :
    toAscii (Spelling.unicode.sentence s) = s.chars := by
  have hv : ∀ c ∈ s.variables, c.isUpper = true := by
    rw [variables_of_isGround hg]
    exact fun c hc => absurd hc List.not_mem_nil
  exact (toAscii_toUnicode s.chars).trans (toAscii_chars hl hv)

/-- A ground sentence is read back from its written form. -/
theorem parseTop_text (hg : s.isGround = true) (hl : ∀ c ∈ s.occurrences, c.isLower = true) :
    parseTop s.text = .ok s := by
  rw [parseTop_eq_ok_iff, text, String.toList_ofList]
  exact ⟨(writtenIn_chars (lettered_of_isGround hg hl)).writtenTop, hg⟩

end Sentence

theorem toAscii_decimal (n : Nat) : toAscii (decimal n) = decimal n := by
  refine toAscii_eq_self fun c hc => asciiSpelling_of_lt ?_
  have hbounds := bounds_of_isDigit (Reader.isDigit_of_mem_decimal hc)
  omega

theorem Citation.toAscii_chars (c : Citation) : toAscii c.chars = c.chars := by
  cases c with
  | line number => exact toAscii_decimal _
  | range first last =>
    rw [chars, toAscii_append, toAscii_cons, toAscii_decimal, toAscii_decimal]
    rfl

theorem Line.toAscii_moreChars (cs : List Citation) : toAscii (moreChars cs) = moreChars cs := by
  induction cs with
  | nil => rfl
  | cons c cs ih =>
    simp only [moreChars_cons, toAscii_append, Citation.toAscii_chars, ih]
    rfl

theorem Justification.toAscii_chars {j : Justification} (hname : isRuleName j.rule = true) :
    toAscii j.chars = j.chars := by
  have hrule : toAscii j.rule.toList = j.rule.toList :=
    toAscii_eq_self fun c hc => asciiSpelling_of_isRuleChar ((Line.isRuleName_iff.mp hname).2 c hc)
  cases hc : j.citations with
  | nil =>
    rw [chars, hc]
    exact hrule
  | cons c cs =>
    simp only [Line.chars_of_citations hc, toAscii_append, hrule, Citation.toAscii_chars, Line.toAscii_moreChars]
    rfl

/-- **A step in Unicode spelling becomes its written form**, with its bars and its rule name as they are. -/
theorem Step.toAscii_charsIn_unicode {s : Step} (hs : s.Writable) (hname : isRuleName s.reason.rule = true) :
    toAscii (s.charsIn .unicode) = s.chars := by
  have hbars : toAscii (List.replicate s.depth '|') = List.replicate s.depth '|' :=
    toAscii_eq_self fun c hc => by rw [List.eq_of_mem_replicate hc]; rfl
  simp only [charsIn, toAscii_append, toAscii_cons, hbars, toAscii_decimal, Justification.toAscii_chars hname,
    Sentence.toAscii_unicode hs.ground hs.letters]
  rfl

/-- **What is shown in Unicode spelling can be read.**  A ground sentence over the letters `a`-`z` has no ASCII
connective left in Unicode spelling, and is read back from it; so is every step that can be read at all, with its bars,
its number and its rule as they were. -/
theorem unicode_spelling_read_back :
    (∀ s : Sentence, s.isGround = true → (∀ c ∈ s.occurrences, c.isLower = true) →
      Sentence.parseTop (String.ofList (toAscii (Spelling.unicode.sentence s))) = .ok s ∧
      ∀ symbol ∈ asciiConnectives, ¬ symbol.toList <:+: Spelling.unicode.sentence s) ∧
    ∀ (text : String) (source : Nat) (step : Step), Line.parse text source = .ok (.step step) →
      Line.parse (String.ofList (toAscii (step.charsIn .unicode))) step.source = .ok (.step step) := by
  constructor
  · intro s hg hl
    refine ⟨?_, not_infix_toUnicode s.chars⟩
    rw [Sentence.toAscii_unicode hg hl]
    exact Sentence.parseTop_text hg hl
  · intro text source step h
    obtain ⟨hw, hname⟩ := Line.writable_of_parse h
    rw [Step.toAscii_charsIn_unicode hw hname]
    exact Line.parse_text_step hw hname step.source

/-- A sentence with every connective, and a step whose bars, disjunction and rule name have characters in common. -/
theorem unicode_spelling_read_back_bars :
    Spelling.unicode.sentence (.binary .equivalent (.not (.atom 'p')) (.binary .follows (.atom 'q') (.atom 'r'))) =
      "(¬p ↔ (q → r))".toList ∧
    Sentence.parseTop (String.ofList (toAscii "(¬p ↔ (q → r))".toList)) =
      .ok (.binary .equivalent (.not (.atom 'p')) (.binary .follows (.atom 'q') (.atom 'r'))) ∧
    ∃ step, Line.parse "|| 03 p|q -Ä(2,1 - 2)" 7 = .ok (.step step) ∧
      step.charsIn .unicode = "||3 (p ∨ q) -Ä(2, 1-2)".toList ∧
      Line.parse (String.ofList (toAscii "||3 (p ∨ q) -Ä(2, 1-2)".toList)) 7 = .ok (.step step) := by
  let s : Sentence := .binary .equivalent (.not (.atom 'p')) (.binary .follows (.atom 'q') (.atom 'r'))
  let step : Step := ⟨7, 2, 2, .binary .or (.atom 'p') (.atom 'q'), ⟨"-Ä", [.line 1, .range 0 1]⟩⟩
  have hs : Spelling.unicode.sentence s = "(¬p ↔ (q → r))".toList := by decide
  have hread := (unicode_spelling_read_back.1 s rfl (List.all_eq_true.mp (by decide))).1
  rw [hs] at hread
  have hstep : Line.parse "|| 03 p|q -Ä(2,1 - 2)" 7 = .ok (.step step) := by decide +kernel
  have hchars : step.charsIn .unicode = "||3 (p ∨ q) -Ä(2, 1-2)".toList := by decide +kernel
  have hback := unicode_spelling_read_back.2 _ _ step hstep
  rw [hchars] at hback
  exact ⟨hs, hread, step, hstep, hchars, hback⟩

end Deduction
