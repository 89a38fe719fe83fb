import Mathlib.Tactic.Common
import Deduction.Proofs.Reading

/-!
# Reading what has been written

`Reader.Reads m text rest a` says that the reader `m`, in front of `text` and then `rest`, reads `text` and yields `a`.
There is one rule for every way to put readers together, as for `Reader.Yields`.  With them the reader of a phrase is
followed along a text that is known to be such a phrase.  What may come after the phrase is a matter of its first
character, which is what `Stops` is about.

* `Reader.Reads.bind`: one reader after the other.
* `Reader.Refuses.optional`: a reader that may fail, in front of something else.
* `Reader.readAll_of_reads`: texts that are read as a whole.
-/

namespace Deduction

/-! ## Characters -/

section Characters

variable {c : Char}

theorem bounds_of_isDigit (h : c.isDigit = true) : 48 ≤ c.toNat ∧ c.toNat ≤ 57 := by
  have hc : (decide (48 ≤ c.val) && decide (c.val ≤ 57)) = true := h
  rwa [Bool.and_eq_true, decide_eq_true_iff, decide_eq_true_iff, UInt32.le_iff_toNat_le, UInt32.le_iff_toNat_le] at hc

theorem bounds_of_isUpper (h : c.isUpper = true) : 65 ≤ c.toNat ∧ c.toNat ≤ 90 := by
  have hc : 65 ≤ c.val ∧ c.val ≤ 90 := of_decide_eq_true h
  rwa [UInt32.le_iff_toNat_le, UInt32.le_iff_toNat_le] at hc

theorem bounds_of_isLower (h : c.isLower = true) : 97 ≤ c.toNat ∧ c.toNat ≤ 122 := by
  have hc : (decide (97 ≤ c.val) && decide (c.val ≤ 122)) = true := h
  rwa [Bool.and_eq_true, decide_eq_true_iff, decide_eq_true_iff, UInt32.le_iff_toNat_le, UInt32.le_iff_toNat_le] at hc

theorem isWhitespace_of_visible (h : 0x20 < c.toNat) (h' : c.toNat < 0x7F) : isWhitespace c = false := by
  simp only [isWhitespace, Bool.or_eq_false_iff, Bool.and_eq_false_iff, decide_eq_false_iff_not, beq_eq_false_iff_ne]
  omega

theorem isWhitespace_of_isAlphabetic (h : isAlphabetic c = true) : isWhitespace c = false := by
  -- every range of alphabetic characters keeps clear of every range of white space
  have hapart : ∀ r ∈ alphabeticRanges, (r.2 < 0x09 ∨ 0x0D < r.1) ∧ (r.2 < 0x20 ∨ 0x20 < r.1) ∧
      (r.2 < 0x85 ∨ 0x85 < r.1) ∧ (r.2 < 0xA0 ∨ 0xA0 < r.1) ∧ (r.2 < 0x1680 ∨ 0x1680 < r.1) ∧
      (r.2 < 0x2000 ∨ 0x200A < r.1) ∧ (r.2 < 0x2028 ∨ 0x2029 < r.1) ∧ (r.2 < 0x202F ∨ 0x202F < r.1) ∧
      (r.2 < 0x205F ∨ 0x205F < r.1) ∧ (r.2 < 0x3000 ∨ 0x3000 < r.1) := by
    decide +kernel
  obtain ⟨r, hr, hc⟩ := List.any_eq_true.mp h
  have hcr : r.1 ≤ c.toNat ∧ c.toNat ≤ r.2 := by simpa using hc
  have hclear := hapart r hr
  simp only [isWhitespace, Bool.or_eq_false_iff, Bool.and_eq_false_iff, decide_eq_false_iff_not, beq_eq_false_iff_ne]
  omega

theorem isWhitespace_of_isRuleChar (h : isRuleChar c = true) : isWhitespace c = false := by
  simp only [isRuleChar, Bool.or_eq_true, beq_iff_eq] at h
  rcases h with (h | rfl) | rfl
  · exact isWhitespace_of_isAlphabetic h
  · decide
  · decide

end Characters

/-! ## Runs of characters -/

/-- The text is empty or starts with a character that does not satisfy `p`, so a run of such characters ends there. -/
def Stops (p : Char → Bool) (text : List Char) : Prop := ∀ c ∈ text.head?, p c = false

section Stops

variable {p : Char → Bool} {text rest : List Char}

@[simp] theorem stops_nil : Stops p [] := fun _ h => by cases h

@[simp] theorem stops_cons {c : Char} : Stops p (c :: text) ↔ p c = false := by
  simp [Stops]

theorem stops_append (hne : text ≠ []) (h : ∀ c ∈ text, p c = false) : Stops p (text ++ rest) := by
  cases text with
  | nil => exact absurd rfl hne
  | cons c text => exact stops_cons.mpr (h c (by simp))

theorem takeWhile_append_of_stops (h : ∀ c ∈ text, p c = true) (hr : Stops p rest) :
    (text ++ rest).takeWhile p = text := by
  rw [List.takeWhile_append_of_pos h]
  cases rest with
  | nil => rw [List.takeWhile_nil, List.append_nil]
  | cons c rest => simp [stops_cons.mp hr]

theorem dropWhile_append_of_stops (h : ∀ c ∈ text, p c = true) (hr : Stops p rest) :
    (text ++ rest).dropWhile p = rest := by
  rw [List.dropWhile_append_of_pos h]
  cases rest with
  | nil => rfl
  | cons c rest => simp [stops_cons.mp hr]

/-- There is one place where a run of characters ends. -/
theorem append_inj_of_stops {text' rest' : List Char} (heq : text ++ rest = text' ++ rest') (h : ∀ c ∈ text, p c = true)
    (hr : Stops p rest) (h' : ∀ c ∈ text', p c = true) (hr' : Stops p rest') : text = text' ∧ rest = rest' := by
  refine ⟨?_, ?_⟩
  · rw [← takeWhile_append_of_stops h hr, heq, takeWhile_append_of_stops h' hr']
  · rw [← dropWhile_append_of_stops h hr, heq, dropWhile_append_of_stops h' hr']

end Stops

namespace Reader

variable {α β : Type} {m : Reader α} {f : α → Reader β} {a : α} {b : β} {text rest t u : List Char}

/-- In front of `text` and then `rest`, the reader reads `text` and yields `a`. -/
def Reads (m : Reader α) (text rest : List Char) (a : α) : Prop :=
  ∀ pos, m ⟨pos, text ++ rest⟩ = (.ok a, ⟨pos + byteLength text, rest⟩)

/-- In front of `rest`, the reader fails and stays where it is. -/
def Refuses (m : Reader α) (rest : List Char) : Prop := ∀ pos, ∃ e, m ⟨pos, rest⟩ = (.error e, ⟨pos, rest⟩)

/-! ## Rules -/

theorem reads_pure : (pure a : Reader α).Reads [] rest a := fun _ => rfl

theorem Reads.bind (hm : m.Reads t (u ++ rest) a) (hf : (f a).Reads u rest b) :
    (m >>= f).Reads (t ++ u) rest b := by
  intro pos
  have h₁ := hm pos
  have h₂ := hf (pos + byteLength t)
  rw [List.append_assoc]
  simp only [Bind.bind, h₁, h₂, byteLength_append, Nat.add_assoc]

/-- A reader that gets through its part and then fails. -/
theorem Reads.bind_fails (hm : m.Reads text rest a) (hf : (f a).Refuses rest) (pos : Nat) :
    ∃ e c, (m >>= f) ⟨pos, text ++ rest⟩ = (.error e, c) := by
  obtain ⟨e, he⟩ := hf (pos + byteLength text)
  exact ⟨e, _, by simp only [Bind.bind, hm pos, he]; rfl⟩

/-- A reader that only looks, or skips what is not there. -/
theorem Reads.bind_nil (hm : m.Reads [] (text ++ rest) a) (hf : (f a).Reads text rest b) :
    (m >>= f).Reads text rest b :=
  hm.bind hf

/-- A reader after which nothing is read any more. -/
theorem Reads.bind_last (hm : m.Reads text rest a) (hf : (f a).Reads [] rest b) : (m >>= f).Reads text rest b := by
  have h := Reads.bind (u := []) hm hf
  rwa [List.append_nil] at h

theorem Reads.mapTrace (hm : m.Reads text rest a) (g : List Expectation → List Expectation) :
    (m.mapTrace g).Reads text rest a := fun pos => by
  simp only [Reader.mapTrace, hm pos]

theorem Reads.expecting (hm : m.Reads text rest a) (what : Expectation) : (m.expecting what).Reads text rest a :=
  hm.mapTrace _

theorem Reads.commit (hm : m.Reads text rest a) : m.commit.Reads text rest a := fun pos => by
  simp only [Reader.commit, hm pos]

theorem Reads.attempt (hm : m.Reads text rest a) : m.attempt.Reads text rest a := fun pos => by
  simp only [Reader.attempt, hm pos]

theorem Reads.optional (hm : m.Reads text rest a) : m.optional.Reads text rest (some a) := fun pos => by
  simp only [Reader.optional, hm pos]

theorem refuses_fail : (fail : Reader α).Refuses rest := fun _ => ⟨_, rfl⟩

theorem Refuses.optional (hm : m.Refuses rest) : m.optional.Reads [] rest none := fun pos => by
  obtain ⟨e, he⟩ := hm pos
  simp only [Reader.optional, List.nil_append, he, byteLength_nil, Nat.add_zero]

theorem Refuses.mapTrace (hm : m.Refuses rest) (g : List Expectation → List Expectation) :
    (m.mapTrace g).Refuses rest := fun pos => by
  obtain ⟨e, he⟩ := hm pos
  exact ⟨_, by simp only [Reader.mapTrace, he]; rfl⟩

theorem Refuses.expecting (hm : m.Refuses rest) (what : Expectation) : (m.expecting what).Refuses rest :=
  hm.mapTrace _

/-- Whatever the reader has read before it failed is put back. -/
theorem refuses_attempt (h : ∀ pos, ∃ e c, m ⟨pos, rest⟩ = (.error e, c)) : m.attempt.Refuses rest := fun pos => by
  obtain ⟨e, c, he⟩ := h pos
  exact ⟨e, by simp only [Reader.attempt, he]⟩

theorem reads_withBudget {g : Nat → Reader α} (h : (g ((text ++ rest).length + 1)).Reads text rest a) :
    (withBudget g).Reads text rest a := fun pos => h pos

/-- A checkpoint is only needed where something fails later on. -/
theorem reads_checkpoint_bind {f : Cursor → Reader β} (h : ∀ c, (f c).Reads text rest b) :
    (checkpoint >>= f).Reads text rest b := fun pos => h _ pos

/-! ## Single steps -/

theorem reads_peek : peek.Reads [] rest rest.head? := fun _ => rfl

theorem reads_pop {x : Char} : pop.Reads [x] rest (some x) := fun pos => by
  simp [pop]

theorem reads_takeWhile {p : Char → Bool} (h : ∀ c ∈ text, p c = true) (hr : Stops p rest) :
    (takeWhile p).Reads text rest text := fun pos => by
  simp only [takeWhile, takeWhile_append_of_stops h hr, dropWhile_append_of_stops h hr]

theorem reads_skipWhitespace (h : isBlank text = true) (hr : Stops isWhitespace rest) :
    skipWhitespace.Reads text rest (byteLength text) :=
  (reads_takeWhile (isBlank_iff.mp h) hr).bind_last reads_pure

theorem reads_expectWhitespace (h : isBlank text = true) (hne : text ≠ []) (hr : Stops isWhitespace rest) :
    expectWhitespace.Reads text rest () := by
  have hsize : byteLength text ≠ 0 := by
    cases text with
    | nil => exact absurd rfl hne
    | cons c text =>
      have := c.utf8Size_pos
      rw [byteLength_cons]
      omega
  refine (reads_skipWhitespace h hr).bind_last ?_
  rw [if_neg hsize]
  exact reads_pure

theorem reads_expectChar {x : Char} : (expectChar x).Reads [x] rest x :=
  Reads.expecting (fun pos => by simp [expectWhere]) _

theorem refuses_expectChar {x : Char} (hr : Stops (· == x) rest) : (expectChar x).Refuses rest := by
  refine Refuses.expecting (fun pos => ?_) _
  cases rest with
  | nil => exact ⟨_, rfl⟩
  | cons c rest =>
    have hc : (c == x) = false := by simpa using hr
    exact ⟨_, by simp only [expectWhere, hc]; rfl⟩

theorem reads_expectChars {xs : List Char} : (expectChars xs).Reads xs rest () := by
  induction xs with
  | nil => exact reads_pure
  | cons x xs ih => exact Reads.bind (t := [x]) reads_expectChar ih

theorem expectChars_fails {xs : List Char} (h : ¬ xs <+: rest) (pos : Nat) :
    ∃ e c, expectChars xs ⟨pos, rest⟩ = (.error e, c) := by
  induction xs generalizing rest pos with
  | nil => exact absurd List.nil_prefix h
  | cons x xs ih =>
    by_cases hx : Stops (· == x) rest
    · obtain ⟨e, he⟩ := refuses_expectChar hx pos
      exact ⟨e, ⟨pos, rest⟩, by simp only [expectChars, Bind.bind, he]⟩
    · cases rest with
      | nil => exact absurd stops_nil hx
      | cons c rest =>
        have hcx : c = x := by simpa using hx
        subst hcx
        have htail : ¬ xs <+: rest := fun hp => h (List.cons_prefix_cons.mpr ⟨rfl, hp⟩)
        obtain ⟨e, c', he⟩ := ih htail (pos + byteLength [c])
        have hhead : expectChar c ⟨pos, c :: rest⟩ = (.ok c, ⟨pos + byteLength [c], rest⟩) := reads_expectChar pos
        exact ⟨e, c', by simp only [expectChars, Bind.bind, hhead, he]⟩

theorem reads_expectText {s : String} : (expectText s).Reads s.toList rest () :=
  (reads_expectChars.attempt.mapTrace _).expecting _

theorem refuses_expectText {s : String} (h : ¬ s.toList <+: rest) : (expectText s).Refuses rest :=
  ((refuses_attempt (expectChars_fails h)).mapTrace _).expecting _

theorem reads_expectEnd : expectEnd.Reads [] [] () := fun _ => rfl

/-! ## Whole texts -/

/-- **A text that is read up to white space is read as a whole.** -/
theorem readAll_of_reads {w : List Char} (h : m.Reads text w a) (hw : isBlank w = true) :
    m.readAll (text ++ w) = .ok a := by
  have hwhole : (do
      let a ← m
      let _ ← skipWhitespace
      expectEnd
      return a : Reader α).Reads (text ++ w) [] a := by
    refine Reads.bind (u := w) (by rwa [List.append_nil]) ?_
    exact (reads_skipWhitespace hw stops_nil).bind_last (reads_expectEnd.bind_last reads_pure)
  have hstart := hwhole 0
  rw [List.append_nil] at hstart
  exact congrArg Prod.fst hstart

/-! ## Numbers -/

theorem isDigit_of_mem_decimal {n : Nat} {c : Char} (h : c ∈ decimal n) : c.isDigit = true :=
  Nat.isDigit_of_mem_toDigits (by decide) (by decide) h

theorem decimal_ne_nil (n : Nat) : decimal n ≠ [] := Nat.toDigits_ne_nil

end Reader

end Deduction
