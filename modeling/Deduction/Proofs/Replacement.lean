import Mathlib.Data.List.Nodup
import Deduction.Proofs.Transcription

/-!
# Transcription as replacement

Both directions of transcription replace the entries of a table: going through a text from left to right, the longest
key that stands at a place gives way to its value, and the search goes on behind it.  `Replaced` says this for any
table.  It determines the result, and leaves a text alone in which no key occurs.  That no key occurs in a transcribed
text is what has to be shown about the connectives, since `->` is the end of `<->` and pieces that are left over could
come to stand next to each other.

* `Replaced.unique`, `Replaced.eq_self`: replacement by any table.
* `replaced_toAscii`, `replaced_toUnicode`: both directions of transcription.
* `transcription_laws`: how both directions compose, on arbitrary texts.
-/

namespace Deduction

/-! ## Leftmost longest replacement -/

/-- The result of replacing keys of a table by their values: from left to right, at each place the longest key that
stands there, and keys do not overlap.  Characters at which no key stands are kept. -/
inductive Replaced (table : List (List Char × List Char)) : List Char → List Char → Prop
  | nil : Replaced table [] []
  | entry {key value rest result : List Char} (hmem : (key, value) ∈ table)
      (hlongest : ∀ e ∈ table, e.1 <+: key ++ rest → e.1.length ≤ key.length)
      (hrest : Replaced table rest result) : Replaced table (key ++ rest) (value ++ result)
  | char {c : Char} {rest result : List Char} (hnone : ∀ e ∈ table, ¬ e.1 <+: c :: rest)
      (hrest : Replaced table rest result) : Replaced table (c :: rest) (c :: result)

namespace Replaced

variable {table : List (List Char × List Char)} {text result result' : List Char}

/-- A text in which no key occurs stays as it is. -/
theorem eq_self (h : Replaced table text result) (hnone : ∀ e ∈ table, ¬ e.1 <:+: text) : result = text := by
  induction h with
  | nil => rfl
  | @entry key value rest result hmem _ _ _ => exact absurd ⟨[], rest, rfl⟩ (hnone (key, value) hmem)
  | @char c rest result _ _ ih =>
    rw [ih fun e he hin => hnone e he (List.infix_cons hin)]

/-- Where the longest key stands, it is the one that was replaced. -/
theorem entry_inv {key value rest : List Char} (hne : ∀ e ∈ table, e.1 ≠ [])
    (hkeys : (table.map Prod.fst).Nodup) (hmem : (key, value) ∈ table)
    (hlongest : ∀ e ∈ table, e.1 <+: key ++ rest → e.1.length ≤ key.length)
    (h : Replaced table (key ++ rest) result) : ∃ result', result = value ++ result' ∧ Replaced table rest result' := by
  generalize htext : key ++ rest = text at h
  cases h with
  | nil => exact absurd (List.append_eq_nil_iff.mp htext).1 (hne _ hmem)
  | char hnone _ => exact absurd ⟨rest, htext⟩ (hnone _ hmem)
  | @entry key' value' rest' result' hmem' hlongest' hrest =>
    have hle := hlongest _ hmem' ⟨rest', htext.symm⟩
    have hge := hlongest' _ hmem ⟨rest, htext⟩
    obtain ⟨rfl, rfl⟩ := List.append_inj htext (Nat.le_antisymm hge hle)
    obtain rfl : value = value' := congrArg Prod.snd (List.inj_on_of_nodup_map hkeys hmem hmem' rfl)
    exact ⟨result', rfl, hrest⟩

/-- **The result of a replacement is unique**, if keys are not empty and no key has two values. -/
theorem unique (hne : ∀ e ∈ table, e.1 ≠ []) (hkeys : (table.map Prod.fst).Nodup) (h : Replaced table text result)
    (h' : Replaced table text result') : result = result' := by
  induction h generalizing result' with
  | nil =>
    generalize htext : ([] : List Char) = text at h'
    cases h' with
    | nil => rfl
    | entry hmem _ _ => exact absurd (List.append_eq_nil_iff.mp htext.symm).1 (hne _ hmem)
    | char => cases htext
  | entry hmem hlongest _ ih =>
    obtain ⟨result'', rfl, hrest⟩ := entry_inv hne hkeys hmem hlongest h'
    rw [ih hrest]
  | @char c rest _ hnone _ ih =>
    generalize htext : c :: rest = text at h'
    cases h' with
    | nil => cases htext
    | @entry _ _ rest' _ hmem _ _ => exact absurd ⟨rest', htext.symm⟩ (hnone _ hmem)
    | char _ hrest =>
      cases htext
      rw [ih hrest]

/-- A function that replaces is the only way to do so. -/
theorem iff_of_forall {f : List Char → List Char} (hne : ∀ e ∈ table, e.1 ≠ []) (hkeys : (table.map Prod.fst).Nodup)
    (hf : ∀ text, Replaced table text (f text)) : Replaced table text result ↔ result = f text := by
  constructor
  · intro h
    exact h.unique hne hkeys (hf text)
  · rintro rfl
    exact hf text

end Replaced

/-! ## Transcription -/

/-- The Unicode spellings of the connectives, in the order of `asciiConnectives`. -/
def unicodeConnectives : List String := ["¬", "↔", "→", "∧", "∨"]

/-- What replaces the ASCII connectives. -/
def asciiTable : List (List Char × List Char) :=
  (asciiConnectives.map String.toList).zip (unicodeConnectives.map String.toList)

/-- What replaces the Unicode connectives. -/
def unicodeTable : List (List Char × List Char) :=
  (unicodeConnectives.map String.toList).zip (asciiConnectives.map String.toList)

section Transcription

variable {text result : List Char}

theorem asciiTable_eq : asciiTable = [(['!'], ['¬']), (['<', '-', '>'], ['↔']), (['-', '>'], ['→']), (['&'], ['∧']),
    (['|'], ['∨'])] := by decide

theorem unicodeTable_eq : unicodeTable = [(['¬'], ['!']), (['↔'], ['<', '-', '>']), (['→'], ['-', '>']),
    (['∧'], ['&']), (['∨'], ['|'])] := by decide

/-- **From Unicode to ASCII, the Unicode connectives are replaced.** -/
theorem replaced_toAscii (text : List Char) : Replaced unicodeTable text (toAscii text) := by
  induction text with
  | nil => exact .nil
  | cons c rest ih =>
    have hlongest : ∀ e ∈ unicodeTable, e.1 <+: [c] ++ rest → e.1.length ≤ [c].length := by simp [unicodeTable_eq]
    rw [toAscii_cons]
    fun_cases asciiSpelling c with
    | case6 _ hnot hand hor hfollows hequivalent =>
      refine .char ?_ ih
      simpa [unicodeTable_eq, eq_comm] using ⟨hnot, hequivalent, hfollows, hand, hor⟩
    | case1 => exact @Replaced.entry _ ['¬'] _ _ _ (by decide) hlongest ih
    | case2 => exact @Replaced.entry _ ['∧'] _ _ _ (by decide) hlongest ih
    | case3 => exact @Replaced.entry _ ['∨'] _ _ _ (by decide) hlongest ih
    | case4 => exact @Replaced.entry _ ['→'] _ _ _ (by decide) hlongest ih
    | case5 => exact @Replaced.entry _ ['↔'] _ _ _ (by decide) hlongest ih

/-- **From ASCII to Unicode, the ASCII connectives are replaced**, the longest one first. -/
theorem replaced_toUnicode (text : List Char) : Replaced asciiTable text (toUnicode text) := by
  fun_induction toUnicode text with
  | case1 => exact .nil
  | case2 rest ih => exact @Replaced.entry _ ['<', '-', '>'] ['↔'] _ _ (by decide) (by simp [asciiTable_eq]) ih
  | case3 rest ih => exact @Replaced.entry _ ['-', '>'] ['→'] _ _ (by decide) (by simp [asciiTable_eq]) ih
  | case4 rest ih => exact @Replaced.entry _ ['!'] ['¬'] _ _ (by decide) (by simp [asciiTable_eq]) ih
  | case5 rest ih => exact @Replaced.entry _ ['&'] ['∧'] _ _ (by decide) (by simp [asciiTable_eq]) ih
  | case6 rest ih => exact @Replaced.entry _ ['|'] ['∨'] _ _ (by decide) (by simp [asciiTable_eq]) ih
  | case7 c rest hequivalent hfollows hnot hand hor ih =>
    refine .char ?_ ih
    simp only [asciiTable_eq, List.forall_mem_cons]
    refine ⟨?_, ?_, ?_, ?_, ?_, fun e he => absurd he List.not_mem_nil⟩ <;> rintro ⟨rest', h⟩ <;> cases h
    · exact hnot rfl
    · exact hequivalent rest' rfl rfl
    · exact hfollows rest' rfl rfl
    · exact hand rfl
    · exact hor rfl

theorem replaced_unicodeTable_iff : Replaced unicodeTable text result ↔ result = toAscii text :=
  Replaced.iff_of_forall (by simp [unicodeTable_eq]) (by decide) replaced_toAscii

theorem replaced_asciiTable_iff : Replaced asciiTable text result ↔ result = toUnicode text :=
  Replaced.iff_of_forall (by simp [asciiTable_eq]) (by decide) replaced_toUnicode

/-- **No Unicode connective is left in an ASCII text.** -/
theorem not_infix_toAscii (text : List Char) : ∀ symbol ∈ unicodeConnectives, ¬ symbol.toList <:+: toAscii text := by
  have hsingle : ∀ x : Char, asciiSpelling x ≠ [x] → ¬ [x] <:+: toAscii text := by
    intro x hx hin
    obtain ⟨c, -, hc⟩ := List.mem_flatMap.mp (hin.subset (List.mem_singleton_self x))
    exact hx (asciiSpelling_of_mem hc)
  intro symbol hsymbol
  simp only [unicodeConnectives, List.mem_cons, List.not_mem_nil, or_false] at hsymbol
  rcases hsymbol with rfl | rfl | rfl | rfl | rfl <;> exact hsingle _ (by decide)

theorem toUnicode_toUnicode (text : List Char) : toUnicode (toUnicode text) = toUnicode text := by
  refine (replaced_toUnicode _).eq_self fun e he => ?_
  obtain ⟨symbol, hsymbol, hkey⟩ := List.mem_map.mp (List.of_mem_zip he).1
  rw [← hkey]
  exact not_infix_toUnicode text symbol hsymbol

end Transcription

/-- **Laws of transcription on arbitrary texts.**  Both directions are the leftmost longest replacement of one spelling
of the connectives by the other.  Whatever spellings a text mixes, going to Unicode in between makes no difference to
its ASCII spelling; doing a direction twice is doing it once, and leaves no connective of the other spelling anywhere in
the text.  To ASCII, texts are transcribed piece by piece. -/
theorem transcription_laws :
    (∀ text, toAscii (toUnicode text) = toAscii text) ∧
    (∀ text, toAscii (toAscii text) = toAscii text) ∧
    (∀ text, toUnicode (toUnicode text) = toUnicode text) ∧
    (∀ text, ∀ symbol ∈ unicodeConnectives, ¬ symbol.toList <:+: toAscii text) ∧
    (∀ text, ∀ symbol ∈ asciiConnectives, ¬ symbol.toList <:+: toUnicode text) ∧
    (∀ text more, toAscii (text ++ more) = toAscii text ++ toAscii more) ∧
    (∀ text result, Replaced unicodeTable text result ↔ result = toAscii text) ∧
    ∀ text result, Replaced asciiTable text result ↔ result = toUnicode text :=
  ⟨toAscii_toUnicode, toAscii_toAscii, toUnicode_toUnicode, not_infix_toAscii, not_infix_toUnicode, toAscii_append,
    fun _ _ => replaced_unicodeTable_iff, fun _ _ => replaced_asciiTable_iff⟩

/-- Arrows that overlap and halves of arrows, next to a connective that is in Unicode already. -/
theorem transcription_laws_overlaps :
    toUnicode "<-->->∧<-&-!>".toList = "<-→→∧<-∧-¬>".toList ∧
    ¬ "->".toList <:+: "<-→→∧<-∧-¬>".toList ∧
    ¬ "∧".toList <:+: toAscii "<-→→∧<-∧-¬>".toList ∧
    toAscii "<-→→∧<-∧-¬>".toList = "<-->->&<-&-!>".toList := by
  have hunicode : toUnicode "<-->->∧<-&-!>".toList = "<-→→∧<-∧-¬>".toList := by decide
  obtain ⟨hback, -, -, hascii, hleft, -, -, -⟩ := transcription_laws
  have hback := hback "<-->->∧<-&-!>".toList
  have hleft := hleft "<-->->∧<-&-!>".toList "->" (by decide)
  rw [hunicode] at hback hleft
  refine ⟨hunicode, hleft, hascii _ "∧" (by decide), ?_⟩
  rw [hback]
  decide

end Deduction
