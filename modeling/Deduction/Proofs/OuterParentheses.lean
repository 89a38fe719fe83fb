import Deduction.Proofs.SentenceGrammar

/-!
# Outermost parentheses

A sentence that stands alone may go without its outermost parentheses.  Such a text is two sentences with a connective
between them, and putting it in parentheses makes it a sentence of the strict grammar.  The parentheses that are added
belong together: the first sentence inside is complete before its connective, so it cannot reach beyond the last one.

* `Sentence.writtenTop_iff`: what may be written without outermost parentheses.
* `Sentence.writtenIn_wrapped_iff`: what becomes a sentence in parentheses.
* `outer_parentheses_optional`: so either the text or the text in parentheses is a sentence, and never both.
-/

namespace Deduction

open Reader

namespace Sentence

/-- The text is two sentences with a connective between them, and white space as one likes. -/
inductive Bare : Sentence → List Char → Prop
  | mk {op : Connective} {lhs rhs : Sentence} {w₁ w₂ w₃ w₄ left right : List Char} (hw₁ : isBlank w₁ = true)
      (hl : Spelled lhs left) (hw₂ : isBlank w₂ = true) (hw₃ : isBlank w₃ = true) (hr : Spelled rhs right)
      (hw₄ : isBlank w₄ = true) :
      Bare (.binary op lhs rhs) (w₁ ++ left ++ (w₂ ++ (op.symbol.toList ++ (w₃ ++ right ++ w₄))))

section Wrapping

variable {s s' : Sentence} {text : List Char}

theorem writtenTop_iff : s.WrittenTop text ↔ s.WrittenIn text ∨ s.Bare text := by
  constructor
  · rintro ⟨w, spelling, w', rfl, hw, hs, hw'⟩
    cases hs with
    | strict hs => exact Or.inl (writtenIn_iff.mpr ⟨w, spelling, w', rfl, hw, hs, hw'⟩)
    | @bare op lhs rhs w₂ w₃ left right hl hw₂ hw₃ hr =>
      have hbare : (binary op lhs rhs).Bare _ := .mk hw hl hw₂ hw₃ hr hw'
      exact Or.inr (by simpa using hbare)
  · rintro (h | h)
    · exact h.writtenTop
    · cases h with
      | @mk op lhs rhs w₁ w₂ w₃ w₄ left right hw₁ hl hw₂ hw₃ hr hw₄ =>
        have hspelled : (binary op lhs rhs).SpelledTop _ := .bare hl hw₂ hw₃ hr
        exact ⟨w₁, _, w₄, by simp, hw₁, hspelled, hw₄⟩

/-- There is no white space around a text in parentheses. -/
theorem spelled_of_writtenIn_wrapped (h : s.WrittenIn ('(' :: (text ++ [')']))) :
    s.Spelled ('(' :: (text ++ [')'])) := by
  obtain ⟨w, spelling, w', htext, hw, hs, hw'⟩ := writtenIn_iff.mp h
  have hfront : w = [] := by
    have heq : [] ++ '(' :: (text ++ [')']) = w ++ (spelling ++ w') := by rw [← List.append_assoc, ← htext]; rfl
    have hopening : Stops isWhitespace ('(' :: (text ++ [')'])) := stops_cons.mpr (by decide)
    exact (append_inj_of_stops heq (by simp) hopening (isBlank_iff.mp hw) hs.stops).1.symm
  have hend : w' = [] := by
    rcases List.eq_nil_or_concat w' with hnil | ⟨init, c, hconcat⟩
    · exact hnil
    · rw [List.concat_eq_append] at hconcat
      subst hconcat
      have heq : ('(' :: text) ++ [')'] = (w ++ spelling ++ init) ++ [c] := by rw [List.append_assoc, ← htext]; rfl
      obtain rfl : ')' = c := List.singleton_inj.mp (List.append_inj' heq rfl).2
      rw [isBlank_append, Bool.and_eq_true] at hw'
      exact absurd hw'.2 (by decide)
  subst hfront hend
  rw [List.nil_append, List.append_nil] at htext
  rwa [htext]

/-- **In parentheses, a text is a sentence exactly if it is two sentences with a connective between them.** -/
theorem writtenIn_wrapped_iff : s.WrittenIn ('(' :: (text ++ [')'])) ↔ s.Bare text := by
  constructor
  · intro h
    have hs := spelled_of_writtenIn_wrapped h
    generalize hwrapped : '(' :: (text ++ [')']) = spelling at hs
    cases hs with
    | atom hc => simp at hwrapped
    | var hc => simp at hwrapped
    | not _ _ => exact absurd (List.cons_eq_cons.mp hwrapped).1 (by decide)
    | @binary op lhs rhs w₁ w₂ w₃ w₄ left right hw₁ hl hw₂ hw₃ hr hw₄ =>
      have hinner : text ++ [')'] = w₁ ++ left ++ (w₂ ++ (op.symbol.toList ++ (w₃ ++ right ++ w₄))) ++ [')'] := by
        simpa using hwrapped
      rw [List.append_cancel_right hinner]
      exact .mk hw₁ hl hw₂ hw₃ hr hw₄
  · intro h
    cases h with
    | @mk op lhs rhs w₁ w₂ w₃ w₄ left right hw₁ hl hw₂ hw₃ hr hw₄ =>
      have hspelled : (binary op lhs rhs).Spelled _ := .binary hw₁ hl hw₂ hw₃ hr hw₄
      exact writtenIn_iff.mpr ⟨[], _, [], by simp, rfl, hspelled, rfl⟩

/-- The reader takes the first of the two sentences and is not at the end. -/
theorem Bare.not_writtenIn (h : s.Bare text) : ¬ s'.WrittenIn text := by
  intro h'
  obtain ⟨w, spelling, w', htext, hw, hs', hw'⟩ := writtenIn_iff.mp h'
  cases h with
  | @mk op lhs rhs w₁ w₂ w₃ w₄ left right hw₁ hl hw₂ hw₃ hr hw₄ =>
    have hread : (reader true).Reads (w ++ spelling) w' s' := reads_reader hs' (Or.inl rfl) hw
    have hread' : (reader true).Reads (w₁ ++ left) (w₂ ++ (op.symbol.toList ++ (w₃ ++ right ++ w₄))) lhs :=
      reads_reader hl (Or.inl rfl) hw₁
    have hrest : w' = w₂ ++ (op.symbol.toList ++ (w₃ ++ right ++ w₄)) := by
      have hsame := hread 0
      rw [← htext, hread' 0] at hsame
      exact congrArg (fun r => r.2.rest) hsame.symm
    rw [hrest] at hw'
    have hsymbol : isBlank op.symbol.toList = true := by
      simp only [isBlank_append, Bool.and_eq_true] at hw'
      exact hw'.2.1
    cases op <;> exact absurd hsymbol (by decide)

end Wrapping

end Sentence

/-- **A sentence that stands alone is one of the strict grammar, with or without its outermost parentheses.**  A text is
read as such a sentence exactly if it is read so in the strict grammar, either as it is or in parentheses.  The two
never happen for the same text. -/
theorem outer_parentheses_optional (text : String) :
    (∀ s : Sentence, Sentence.parseTop text = .ok s ↔
      Sentence.parse text = .ok s ∨ Sentence.parse ("(" ++ text ++ ")") = .ok s) ∧
    ¬ ((∃ s, Sentence.parse text = .ok s) ∧ ∃ s, Sentence.parse ("(" ++ text ++ ")") = .ok s) := by
  have hwrapped : ("(" ++ text ++ ")").toList = '(' :: (text.toList ++ [')']) := by simp
  simp only [Sentence.parseTop_eq_ok_iff, Sentence.parse_eq_ok_iff, hwrapped, Sentence.writtenIn_wrapped_iff,
    Sentence.writtenTop_iff]
  constructor
  · intro s
    rw [or_and_right]
  · rintro ⟨⟨s, hs, -⟩, s', hs', -⟩
    exact hs'.not_writtenIn hs

end Deduction
