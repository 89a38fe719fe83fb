import Deduction.Proofs.Matching
import Deduction.Proofs.Taking

/-!
# The grammar of sentences

A sentence is written as the list of its tokens, with white space before, between and after them as one likes.  `Spaced`
says this of a list of tokens and a text.  `Sentence.Spelled` describes the same texts along the sentence, from its
first token to its last, which is how a reader goes through them.

* `Sentence.writtenIn_iff`: the two descriptions agree.
* `Sentence.reads_readWithin`, `Sentence.takes_readWithin`: a reader of sentences takes spellings, all and only.
* `Sentence.reads_topReader`, `Sentence.takes_topReader`: the same where the outermost parentheses may be missing.
* `Spaced.tokens_unique`: a text is made of tokens in one way only.
* `strict_grammar_exact`: texts are read as sentences and patterns exactly if they are written so.
-/

namespace Deduction

open Reader

/-! ## Tokens -/

/-- What a sentence is written with.  A letter is one of the sentence or the name of a schema variable. -/
inductive Token where
  | letter (c : Char)
  | negation
  | opening
  | closing
  | connective (op : Connective)
  deriving Repr, DecidableEq

namespace Token

/-- How a token is written. -/
def chars : Token → List Char
  | .letter c => [c]
  | .negation => ['!']
  | .opening => ['(']
  | .closing => [')']
  | .connective op => op.symbol.toList

/-- The letters of tokens are `a`-`z` and `A`-`Z`. -/
def Legible : Token → Prop
  | .letter c => c.isLower = true ∨ c.isUpper = true
  | _ => True

end Token

/-- The text consists of the tokens, with white space before, between and after them. -/
inductive Spaced : List Token → List Char → Prop
  | nil {w : List Char} (hw : isBlank w = true) : Spaced [] w
  | cons {w text : List Char} {t : Token} {ts : List Token} (hw : isBlank w = true) (h : Spaced ts text) :
      Spaced (t :: ts) (w ++ (t.chars ++ text))

theorem spaced_cons_iff {t : Token} {ts : List Token} {text : List Char} : Spaced (t :: ts) text ↔
    ∃ w rest, text = w ++ (t.chars ++ rest) ∧ isBlank w = true ∧ Spaced ts rest := by
  constructor
  · intro h
    cases h with
    | cons hw h => exact ⟨_, _, rfl, hw, h⟩
  · rintro ⟨w, rest, rfl, hw, h⟩
    exact .cons hw h

namespace Sentence

/-- The tokens of a sentence. -/
def tokens : Sentence → List Token
  | .atom letter => [.letter letter]
  | .var name => [.letter name]
  | .not operand => .negation :: operand.tokens
  | .binary op lhs rhs => .opening :: (lhs.tokens ++ .connective op :: (rhs.tokens ++ [.closing]))

/-- The letters are among `a`-`z`, and the schema variables among `A`-`Z`. -/
structure Lettered (s : Sentence) : Prop where
  lower : ∀ c ∈ s.occurrences, c.isLower = true
  upper : ∀ c ∈ s.variables, c.isUpper = true

/-- The text is the sentence, token by token. -/
structure WrittenIn (s : Sentence) (text : List Char) : Prop where
  lettered : s.Lettered
  spaced : Spaced s.tokens text

/-- The text is a spelling of the sentence in the strict grammar, from its first token to its last. -/
inductive Spelled : Sentence → List Char → Prop
  | atom {c : Char} (hc : c.isLower = true) : Spelled (.atom c) [c]
  | var {c : Char} (hc : c.isUpper = true) : Spelled (.var c) [c]
  | not {s : Sentence} {w text : List Char} (hw : isBlank w = true) (h : Spelled s text) :
      Spelled (.not s) ('!' :: (w ++ text))
  | binary {op : Connective} {lhs rhs : Sentence} {w₁ w₂ w₃ w₄ left right : List Char} (hw₁ : isBlank w₁ = true)
      (hl : Spelled lhs left) (hw₂ : isBlank w₂ = true) (hw₃ : isBlank w₃ = true) (hr : Spelled rhs right)
      (hw₄ : isBlank w₄ = true) :
      Spelled (.binary op lhs rhs)
        ('(' :: (w₁ ++ left ++ (w₂ ++ (op.symbol.toList ++ (w₃ ++ right ++ (w₄ ++ [')']))))))

/-- The text is a spelling of the sentence in which the outermost parentheses may be missing. -/
inductive SpelledTop : Sentence → List Char → Prop
  | strict {s : Sentence} {text : List Char} (h : Spelled s text) : SpelledTop s text
  | bare {op : Connective} {lhs rhs : Sentence} {w w' left right : List Char} (hl : Spelled lhs left)
      (hw : isBlank w = true) (hw' : isBlank w' = true) (hr : Spelled rhs right) :
      SpelledTop (.binary op lhs rhs) (left ++ (w ++ op.symbol.toList ++ (w' ++ right)))

/-- The text is the sentence between white space, in which the outermost parentheses may be missing. -/
def WrittenTop (s : Sentence) (text : List Char) : Prop :=
  ∃ w spelling w', text = w ++ spelling ++ w' ∧ isBlank w = true ∧ s.SpelledTop spelling ∧ isBlank w' = true

/-! ## The two descriptions agree -/

section Descriptions

variable {s : Sentence} {text rest w : List Char} {ts : List Token}

theorem Lettered.binary_iff {op : Connective} {lhs rhs : Sentence} :
    (binary op lhs rhs).Lettered ↔ lhs.Lettered ∧ rhs.Lettered := by
  constructor
  · intro h
    exact ⟨⟨fun c hc => h.lower c (List.mem_append_left _ hc), fun c hc => h.upper c (List.mem_append_left _ hc)⟩,
      ⟨fun c hc => h.lower c (List.mem_append_right _ hc), fun c hc => h.upper c (List.mem_append_right _ hc)⟩⟩
  · rintro ⟨hl, hr⟩
    refine ⟨fun c hc => ?_, fun c hc => ?_⟩
    · exact (List.mem_append.mp hc).elim (hl.lower c) (hr.lower c)
    · exact (List.mem_append.mp hc).elim (hl.upper c) (hr.upper c)

theorem variables_of_isGround (h : s.isGround = true) : s.variables = [] := by
  induction s with
  | atom letter => rfl
  | var name => cases h
  | not s ih => exact ih h
  | binary op lhs rhs ihl ihr =>
    obtain ⟨hl, hr⟩ := Bool.and_eq_true_iff.mp h
    rw [Sentence.variables, ihl hl, ihr hr, List.nil_append]

theorem lettered_of_isGround (hg : s.isGround = true) (hl : ∀ c ∈ s.occurrences, c.isLower = true) : s.Lettered := by
  refine ⟨hl, fun c hc => ?_⟩
  rw [variables_of_isGround hg] at hc
  exact absurd hc List.not_mem_nil

theorem Spelled.lettered (h : s.Spelled text) : s.Lettered := by
  induction h with
  | atom hc => exact ⟨fun c h => List.mem_singleton.mp h ▸ hc, fun c h => absurd h List.not_mem_nil⟩
  | var hc => exact ⟨fun c h => absurd h List.not_mem_nil, fun c h => List.mem_singleton.mp h ▸ hc⟩
  | not _ _ ih => exact ⟨ih.lower, ih.upper⟩
  | binary _ _ _ _ _ _ ihl ihr => exact Lettered.binary_iff.mpr ⟨ihl, ihr⟩

theorem SpelledTop.lettered (h : s.SpelledTop text) : s.Lettered := by
  cases h with
  | strict h => exact h.lettered
  | bare hl _ _ hr => exact Lettered.binary_iff.mpr ⟨hl.lettered, hr.lettered⟩

/-- A spelling, in front of further tokens, is the tokens of its sentence. -/
theorem Spelled.spaced (h : s.Spelled text) (hw : isBlank w = true) (hrest : Spaced ts rest) :
    Spaced (s.tokens ++ ts) (w ++ (text ++ rest)) := by
  induction h generalizing w ts rest with
  | atom hc => exact .cons hw hrest
  | var hc => exact .cons hw hrest
  | not hw' _ ih =>
    have hoperand := ih hw' hrest
    rw [← List.append_assoc] at hoperand
    exact .cons hw hoperand
  | @binary op lhs rhs w₁ w₂ w₃ w₄ left right hw₁ _ hw₂ hw₃ _ hw₄ ihl ihr =>
    have hclosing : Spaced (.closing :: ts) (w₄ ++ ([')'] ++ rest)) := .cons hw₄ hrest
    have hop : Spaced (.connective op :: (rhs.tokens ++ .closing :: ts))
      (w₂ ++ (op.symbol.toList ++ (w₃ ++ (right ++ (w₄ ++ ([')'] ++ rest)))))) := .cons hw₂ (ihr hw₃ hclosing)
    have hall : Spaced (.opening :: (lhs.tokens ++ .connective op :: (rhs.tokens ++ .closing :: ts))) _ :=
      .cons hw (ihl hw₁ hop)
    simpa [tokens, Token.chars] using hall

/-- The tokens of a sentence, in front of further tokens, start with a spelling. -/
theorem exists_spelled_of_spaced (hs : s.Lettered) (h : Spaced (s.tokens ++ ts) text) :
    ∃ w spelling rest, text = w ++ (spelling ++ rest) ∧ isBlank w = true ∧ s.Spelled spelling ∧ Spaced ts rest := by
  induction s generalizing ts text with
  | atom letter =>
    obtain ⟨w, rest, rfl, hw, hrest⟩ := spaced_cons_iff.mp h
    exact ⟨w, [letter], rest, rfl, hw, .atom (hs.lower letter (List.mem_singleton.mpr rfl)), hrest⟩
  | var name =>
    obtain ⟨w, rest, rfl, hw, hrest⟩ := spaced_cons_iff.mp h
    exact ⟨w, [name], rest, rfl, hw, .var (hs.upper name (List.mem_singleton.mpr rfl)), hrest⟩
  | not s ih =>
    obtain ⟨w, rest, rfl, hw, hrest⟩ := spaced_cons_iff.mp h
    obtain ⟨w', operand, rest', rfl, hw', hoperand, hrest'⟩ := ih ⟨hs.lower, hs.upper⟩ hrest
    exact ⟨w, '!' :: (w' ++ operand), rest', by simp [Token.chars], hw, .not hw' hoperand, hrest'⟩
  | binary op lhs rhs ihl ihr =>
    obtain ⟨hlhs, hrhs⟩ := Lettered.binary_iff.mp hs
    have htokens : (binary op lhs rhs).tokens ++ ts =
        .opening :: (lhs.tokens ++ .connective op :: (rhs.tokens ++ .closing :: ts)) := by
      simp [tokens]
    rw [htokens] at h
    obtain ⟨w, rest, rfl, hw, h⟩ := spaced_cons_iff.mp h
    obtain ⟨w₁, left, rest, rfl, hw₁, hl, h⟩ := ihl hlhs h
    obtain ⟨w₂, rest, rfl, hw₂, h⟩ := spaced_cons_iff.mp h
    obtain ⟨w₃, right, rest, rfl, hw₃, hr, h⟩ := ihr hrhs h
    obtain ⟨w₄, rest, rfl, hw₄, h⟩ := spaced_cons_iff.mp h
    exact ⟨w, _, rest, by simp [Token.chars], hw, .binary hw₁ hl hw₂ hw₃ hr hw₄, h⟩

/-- **A sentence is written in a text exactly if the text is a spelling of it between white space.** -/
theorem writtenIn_iff : s.WrittenIn text ↔
    ∃ w spelling w', text = w ++ spelling ++ w' ∧ isBlank w = true ∧ s.Spelled spelling ∧ isBlank w' = true := by
  constructor
  · intro ⟨hs, h⟩
    rw [← List.append_nil s.tokens] at h
    obtain ⟨w, spelling, rest, rfl, hw, hspelled, hrest⟩ := exists_spelled_of_spaced hs h
    cases hrest with
    | nil hw' => exact ⟨w, spelling, rest, (List.append_assoc _ _ _).symm, hw, hspelled, hw'⟩
  · rintro ⟨w, spelling, w', rfl, hw, hspelled, hw'⟩
    have h := hspelled.spaced hw (Spaced.nil hw')
    rw [List.append_nil, ← List.append_assoc] at h
    exact ⟨hspelled.lettered, h⟩

/-- The printed form is a spelling. -/
theorem spelled_chars (hs : s.Lettered) : s.Spelled s.chars := by
  induction s with
  | atom letter => exact .atom (hs.lower letter (List.mem_singleton.mpr rfl))
  | var name => exact .var (hs.upper name (List.mem_singleton.mpr rfl))
  | not s ih => exact .not (w := []) rfl (ih ⟨hs.lower, hs.upper⟩)
  | binary op lhs rhs ihl ihr =>
    obtain ⟨hlhs, hrhs⟩ := Lettered.binary_iff.mp hs
    have hblank : isBlank [' '] = true := by decide
    have h : (binary op lhs rhs).Spelled _ :=
      .binary isBlank_nil (ihl hlhs) hblank hblank (ihr hrhs) isBlank_nil
    simpa [chars] using h

end Descriptions

/-! ## Readers get through spellings -/

section Reads

variable {s : Sentence} {text rest w : List Char} {vars : Bool}

theorem reads_readConnectiveOf_cons (op : Connective) (ops : List Connective) :
    (readConnectiveOf (op :: ops)).Reads op.symbol.toList rest op :=
  reads_expectText.optional.bind_last reads_pure

theorem reads_readConnectiveOf_of_not_prefix {op first : Connective} {ops : List Connective}
    (hfirst : ¬ first.symbol.toList <+: text ++ rest) (h : (readConnectiveOf ops).Reads text rest op) :
    (readConnectiveOf (first :: ops)).Reads text rest op :=
  (refuses_expectText hfirst).optional.bind_nil h

/-- No symbol starts like another one, so the order in which they are tried does not matter. -/
theorem reads_readConnective (op : Connective) : readConnective.Reads op.symbol.toList rest op := by
  have hno : ∀ first : Connective, first ≠ op → ¬ first.symbol.toList <+: op.symbol.toList ++ rest := by
    cases op <;> intro first <;> cases first <;> simp [Connective.symbol]
  unfold readConnective Connective.all
  cases op with
  | equivalent => exact reads_readConnectiveOf_cons _ _
  | follows =>
    exact reads_readConnectiveOf_of_not_prefix (hno _ (by decide)) (reads_readConnectiveOf_cons _ _)
  | and =>
    refine reads_readConnectiveOf_of_not_prefix (hno _ (by decide)) ?_
    exact reads_readConnectiveOf_of_not_prefix (hno _ (by decide)) (reads_readConnectiveOf_cons _ _)
  | or =>
    refine reads_readConnectiveOf_of_not_prefix (hno _ (by decide)) ?_
    refine reads_readConnectiveOf_of_not_prefix (hno _ (by decide)) ?_
    exact reads_readConnectiveOf_of_not_prefix (hno _ (by decide)) (reads_readConnectiveOf_cons _ _)

theorem refuses_readConnectiveOf {ops : List Connective} (h : ∀ op ∈ ops, ¬ op.symbol.toList <+: rest) :
    (readConnectiveOf ops).Refuses rest := by
  induction ops with
  | nil => exact refuses_fail.expecting _
  | cons op ops ih =>
    intro pos
    obtain ⟨e, he⟩ := ih (fun op' hop' => h op' (by simp [hop'])) pos
    have hskip : (expectText op.symbol).optional ⟨pos, rest⟩ = (.ok none, ⟨pos, rest⟩) :=
      (refuses_expectText (h op (by simp))).optional pos
    exact ⟨e, by simp only [readConnectiveOf, Bind.bind, hskip, he]⟩

/-- No connective starts with white space. -/
theorem stops_symbol (op : Connective) : Stops isWhitespace (op.symbol.toList ++ rest) := by
  cases op <;> exact stops_cons.mpr (by decide)

/-- No spelling starts with white space. -/
theorem Spelled.stops (h : s.Spelled text) : Stops isWhitespace (text ++ rest) := by
  cases h with
  | atom hc =>
    have hbounds := bounds_of_isLower hc
    exact stops_cons.mpr (isWhitespace_of_visible (by omega) (by omega))
  | var hc =>
    have hbounds := bounds_of_isUpper hc
    exact stops_cons.mpr (isWhitespace_of_visible (by omega) (by omega))
  | not _ _ => exact stops_cons.mpr (by decide)
  | binary _ _ _ _ _ _ => exact stops_cons.mpr (by decide)

theorem SpelledTop.stops (h : s.SpelledTop text) : Stops isWhitespace (text ++ rest) := by
  cases h with
  | strict h => exact h.stops
  | bare hl _ _ _ =>
    rw [List.append_assoc]
    exact hl.stops

theorem Spelled.exists_budget (h : s.Spelled text) {budget : Nat} (hb : text.length ≤ budget) :
    ∃ b, budget = b + 1 := by
  have hpos : 0 < text.length := by cases h <;> simp
  exact ⟨budget - 1, by omega⟩

theorem isGround_binary_iff {op : Connective} {lhs rhs : Sentence} :
    (binary op lhs rhs).isGround = true ↔ lhs.isGround = true ∧ rhs.isGround = true := Bool.and_eq_true_iff

theorem reads_readWithin_letter {c : Char} {budget : Nat} (hc : c.isLower = true ∨ c.isUpper = true ∧ vars = true)
    (hw : isBlank w = true) (hs : Stops isWhitespace ([c] ++ rest)) :
    (readWithin vars (budget + 1)).Reads (w ++ [c]) rest (if c.isLower then atom c else var c) := by
  unfold readWithin
  refine Reads.bind (reads_skipWhitespace hw hs) (reads_peek.bind_nil ?_)
  simp only [List.singleton_append, List.head?_cons]
  -- the other characters that a sentence can start with are no letters
  split
  next h =>
    cases h
    rcases hc with hc | ⟨hc, -⟩ <;> exact absurd hc (by decide)
  next h =>
    cases h
    rcases hc with hc | ⟨hc, -⟩ <;> exact absurd hc (by decide)
  next h =>
    cases h
    split
    next => exact reads_pop.bind_last reads_pure
    next hlower =>
      rw [if_pos (Bool.and_eq_true_iff.mpr (hc.resolve_left hlower))]
      exact reads_pop.bind_last reads_pure
  next h => cases h

/-- The reader gets through a spelling with white space in front of it.  Whatever comes after it is left alone. -/
theorem reads_readWithin (h : s.Spelled text) (hv : vars = true ∨ s.isGround = true) (hw : isBlank w = true)
    {budget : Nat} (hb : text.length ≤ budget) : (readWithin vars budget).Reads (w ++ text) rest s := by
  induction h generalizing w budget rest with
  | @atom c hc =>
    have h : (atom c).Spelled [c] := .atom hc
    obtain ⟨b, rfl⟩ := h.exists_budget hb
    have hread : (readWithin vars (b + 1)).Reads (w ++ [c]) rest _ := reads_readWithin_letter (Or.inl hc) hw h.stops
    rwa [if_pos hc] at hread
  | @var c hc =>
    have h : (var c).Spelled [c] := .var hc
    have hvars : vars = true := hv.resolve_right (by simp [isGround])
    have hlower : ¬ c.isLower = true := by
      intro hlower
      have := bounds_of_isLower hlower
      have := bounds_of_isUpper hc
      omega
    obtain ⟨b, rfl⟩ := h.exists_budget hb
    have hread : (readWithin vars (b + 1)).Reads (w ++ [c]) rest _ :=
      reads_readWithin_letter (Or.inr ⟨hc, hvars⟩) hw h.stops
    rwa [if_neg hlower] at hread
  | @not s w' text hw' h ih =>
    obtain ⟨b, rfl⟩ := (Spelled.not hw' h).exists_budget hb
    simp only [List.length_cons, List.length_append] at hb
    have hoperand : (readWithin vars b).Reads (w' ++ text) rest s := ih hv hw' (by omega)
    unfold readWithin
    refine Reads.bind (reads_skipWhitespace hw (Spelled.not hw' h).stops) (reads_peek.bind_nil ?_)
    exact Reads.bind (t := ['!']) reads_pop (hoperand.commit.bind_last reads_pure)
  | @binary op lhs rhs w₁ w₂ w₃ w₄ left right hw₁ hl hw₂ hw₃ hr hw₄ ihl ihr =>
    have h : (binary op lhs rhs).Spelled _ := .binary hw₁ hl hw₂ hw₃ hr hw₄
    obtain ⟨b, rfl⟩ := h.exists_budget hb
    rw [isGround_binary_iff] at hv
    simp only [List.length_cons, List.length_append] at hb
    have hlhs : ∀ rest, (readWithin vars b).Reads (w₁ ++ left) rest lhs := fun rest =>
      ihl (hv.imp_right And.left) hw₁ (by omega)
    have hrhs : ∀ rest, (readWithin vars b).Reads (w₃ ++ right) rest rhs := fun rest =>
      ihr (hv.imp_right And.right) hw₃ (by omega)
    have hop : ∀ rest, Stops isWhitespace ((op.symbol.toList ++ (w₃ ++ right ++ (w₄ ++ [')']))) ++ rest) := by
      intro rest
      rw [List.append_assoc]
      exact stops_symbol op
    have hclosing : Stops isWhitespace ([')'] ++ rest) := stops_cons.mpr (by decide)
    unfold readWithin
    refine Reads.bind (reads_skipWhitespace hw h.stops) (reads_peek.bind_nil ?_)
    refine Reads.bind (t := ['(']) reads_pop (Reads.commit (Reads.bind (hlhs _) ?_))
    refine Reads.bind (reads_skipWhitespace hw₂ (hop _)) (Reads.bind (reads_readConnective op) ?_)
    refine Reads.bind (hrhs _) (Reads.bind (reads_skipWhitespace hw₄ hclosing) ?_)
    exact reads_expectChar.bind_last reads_pure

theorem reads_reader (h : s.Spelled text) (hv : vars = true ∨ s.isGround = true) (hw : isBlank w = true) :
    (reader vars).Reads (w ++ text) rest s :=
  reads_withBudget (reads_readWithin h hv hw (by simp only [List.length_append]; omega))

theorem reads_attempt_readConnective (op : Connective) (hw : isBlank w = true) : (attempt do
    let _ ← skipWhitespace
    readConnective).Reads (w ++ op.symbol.toList) rest op :=
  (Reads.bind (reads_skipWhitespace hw (stops_symbol op)) (reads_readConnective op)).attempt

/-- A sentence is read alone if what comes after it does not look like a connective. -/
theorem reads_topReader_alone (h : ∀ rest, (reader vars).Reads text rest s) (hw : isBlank w = true)
    (hr : Stops isWhitespace rest) (hno : ∀ op : Connective, ¬ op.symbol.toList <+: rest) :
    (topReader vars).Reads text (w ++ rest) s := by
  have hrefuse : (attempt do
      let _ ← skipWhitespace
      readConnective).Refuses (w ++ rest) :=
    refuses_attempt ((reads_skipWhitespace hw hr).bind_fails (refuses_readConnectiveOf fun op _ => hno op))
  exact (h _).bind_last (hrefuse.optional.bind_last reads_pure)

/-- Without outermost parentheses the connective tells where the sentence goes on. -/
theorem reads_topReader_bare {lhs rhs : Sentence} {left right : List Char} (op : Connective)
    (hl : ∀ rest, (reader vars).Reads left rest lhs) (hw : isBlank w = true)
    (hr : (reader vars).Reads right rest rhs) :
    (topReader vars).Reads (left ++ (w ++ op.symbol.toList ++ right)) rest (binary op lhs rhs) :=
  Reads.bind (hl _) (Reads.bind (reads_attempt_readConnective op hw).optional (hr.commit.bind_last reads_pure))

theorem reads_topReader {u : List Char} (h : s.SpelledTop text) (hv : vars = true ∨ s.isGround = true)
    (hu : isBlank u = true) (hw : isBlank w = true) (hr : Stops isWhitespace rest)
    (hno : ∀ op : Connective, ¬ op.symbol.toList <+: rest) : (topReader vars).Reads (u ++ text) (w ++ rest) s := by
  cases h with
  | strict h => exact reads_topReader_alone (fun _ => reads_reader h hv hu) hw hr hno
  | bare hl hw₁ hw₂ hr' =>
    rw [isGround_binary_iff] at hv
    rw [← List.append_assoc]
    exact reads_topReader_bare _ (fun _ => reads_reader hl (hv.imp_right And.left) hu) hw₁
      (reads_reader hr' (hv.imp_right And.right) hw₂)

end Reads

/-! ## Readers take spellings -/

section Takes

variable {rest : List Char}

theorem takes_readConnectiveOf (ops : List Connective) :
    (readConnectiveOf ops).Takes rest fun text op => text = op.symbol.toList := by
  induction ops generalizing rest with
  | nil => exact (yields_fail.expecting _).takes
  | cons op ops ih =>
    refine ((takes_expectText op.symbol).optional (restores_expectText _)).bind fun text after found _ hfound => ?_
    rcases hfound with ⟨rfl, rfl⟩ | ⟨_, rfl, rfl⟩
    · exact ih
    · exact takes_pure (List.append_nil _)

theorem takes_readWithin (vars : Bool) (budget : Nat) : (readWithin vars budget).Takes rest fun text s =>
    ∃ w spelling, text = w ++ spelling ∧ isBlank w = true ∧ s.Spelled spelling := by
  induction budget generalizing rest with
  | zero => exact (yields_fail.expecting _).takes
  | succ budget ih =>
    unfold readWithin
    refine takes_skipWhitespace.bind fun w after _ _ hw => ?_
    refine takes_peek.bind fun none ahead next hafter hnext => ?_
    obtain ⟨rfl, rfl⟩ := hnext
    obtain rfl : after = ahead := hafter
    -- the character that is taken is the one that was looked at
    have hpop : pop.Takes after fun text x => text = x.toList ∧ x = after.head? := takes_pop
    split
    next hhead =>
      refine hpop.bind fun _ _ _ _ hx => ?_
      obtain ⟨rfl, rfl⟩ := hx
      refine ih.commit.bind fun _ _ operand _ hoperand => takes_pure ?_
      obtain ⟨w', spelling, rfl, hw', h⟩ := hoperand
      exact ⟨w, '!' :: (w' ++ spelling), by simp [hhead], hw.1, .not hw' h⟩
    next hhead =>
      refine hpop.bind fun _ _ _ _ hx => Takes.commit ?_
      obtain ⟨rfl, rfl⟩ := hx
      refine ih.bind fun _ _ lhs _ hlhs => takes_skipWhitespace.bind fun w₂ _ _ _ hw₂ => ?_
      refine (takes_readConnectiveOf _).bind fun _ _ op _ hop => ih.bind fun _ _ rhs _ hrhs => ?_
      refine takes_skipWhitespace.bind fun w₄ _ _ _ hw₄ => (takes_expectChar ')').bind fun _ _ _ _ hclosing => ?_
      obtain ⟨w₁, left, rfl, hw₁, hl⟩ := hlhs
      obtain ⟨w₃, right, rfl, hw₃, hr⟩ := hrhs
      subst hop hclosing
      exact takes_pure ⟨w, _, by simp [hhead], hw.1, .binary hw₁ hl hw₂.1 hw₃ hr hw₄.1⟩
    next c _ _ hhead =>
      split
      next hc =>
        refine hpop.bind fun _ _ _ _ hx => takes_pure ?_
        obtain ⟨rfl, rfl⟩ := hx
        exact ⟨w, [c], by simp [hhead], hw.1, .atom hc⟩
      next =>
        split
        next hc =>
          refine hpop.bind fun _ _ _ _ hx => takes_pure ?_
          obtain ⟨rfl, rfl⟩ := hx
          exact ⟨w, [c], by simp [hhead], hw.1, .var (Bool.and_eq_true_iff.mp hc).1⟩
        next => exact (yields_fail.expecting _).takes
    next => exact (yields_fail.expecting _).takes

theorem takes_reader (vars : Bool) : (reader vars).Takes rest fun text s =>
    ∃ w spelling, text = w ++ spelling ∧ isBlank w = true ∧ s.Spelled spelling :=
  takes_withBudget fun budget => takes_readWithin vars budget

theorem takes_topReader (vars : Bool) : (topReader vars).Takes rest fun text s =>
    ∃ w spelling, text = w ++ spelling ∧ isBlank w = true ∧ s.SpelledTop spelling := by
  have hop : ∀ rest, (attempt do
      let _ ← skipWhitespace
      readConnective).Takes rest fun text op => ∃ w, text = w ++ op.symbol.toList ∧ isBlank w = true := fun rest =>
    (takes_skipWhitespace.bind fun w _ _ _ hw => (takes_readConnectiveOf _).mono fun text op htext =>
      ⟨w, by rw [htext], hw.1⟩).attempt
  unfold topReader
  refine (takes_reader vars).bind fun _ _ lhs _ hlhs => ?_
  obtain ⟨w, left, rfl, hw, hl⟩ := hlhs
  refine ((hop _).optional (restores_attempt _)).bind fun _ _ found _ hfound => ?_
  rcases hfound with ⟨rfl, rfl⟩ | ⟨op, rfl, w₁, rfl, hw₁⟩
  · exact takes_pure ⟨w, left, by simp, hw, .strict hl⟩
  · refine (takes_reader vars).commit.bind fun _ _ rhs _ hrhs => ?_
    obtain ⟨w₂, right, rfl, hw₂, hr⟩ := hrhs
    exact takes_pure ⟨w, _, by simp, hw, .bare hl hw₁ hw₂ hr⟩

end Takes

/-! ## Whole texts -/

section Whole

variable {s : Sentence} {text : List Char} {vars : Bool}

/-- **A text is read as a sentence exactly if the sentence is written in it.** -/
theorem readAll_reader_iff : (reader vars).readAll text = .ok s ↔
    s.WrittenIn text ∧ (vars = true ∨ s.isGround = true) := by
  constructor
  · intro h
    obtain ⟨_, w', rfl, hw', w, spelling, rfl, hw, hs⟩ := (takes_reader vars).readAll h
    refine ⟨writtenIn_iff.mpr ⟨w, spelling, w', rfl, hw, hs, hw'⟩, ?_⟩
    cases vars with
    | true => exact Or.inl rfl
    | false => exact Or.inr (reader_yields.readAll h)
  · rintro ⟨hs, hv⟩
    obtain ⟨w, spelling, w', rfl, hw, hs, hw'⟩ := writtenIn_iff.mp hs
    exact readAll_of_reads (reads_reader hs hv hw) hw'

theorem parsePattern_eq_ok_iff {text : String} : parsePattern text = .ok s ↔ s.WrittenIn text.toList :=
  readAll_reader_iff.trans (and_iff_left (Or.inl rfl))

theorem parse_eq_ok_iff {text : String} : parse text = .ok s ↔ s.WrittenIn text.toList ∧ s.isGround = true := by
  rw [parse, readAll_reader_iff, Bool.false_eq_true, false_or]

/-- **Where the outermost parentheses may be missing, a text is read exactly if it is written so.** -/
theorem readAll_topReader_iff : (topReader vars).readAll text = .ok s ↔
    s.WrittenTop text ∧ (vars = true ∨ s.isGround = true) := by
  constructor
  · intro h
    obtain ⟨_, w', rfl, hw', w, spelling, rfl, hw, hs⟩ := (takes_topReader vars).readAll h
    refine ⟨⟨w, spelling, w', rfl, hw, hs, hw'⟩, ?_⟩
    cases vars with
    | true => exact Or.inl rfl
    | false => exact Or.inr (topReader_yields.readAll h)
  · rintro ⟨⟨w, spelling, w', rfl, hw, hs, hw'⟩, hv⟩
    have hread := reads_topReader hs hv hw hw' stops_nil fun op => by cases op <;> decide
    rw [List.append_nil] at hread
    exact readAll_of_reads hread hw'

theorem parseTop_eq_ok_iff {text : String} :
    parseTop text = .ok s ↔ s.WrittenTop text.toList ∧ s.isGround = true := by
  rw [parseTop, readAll_topReader_iff, Bool.false_eq_true, false_or]

/-- No text is two sentences, since it is read as one of them. -/
theorem WrittenIn.unique {s' : Sentence} (h : s.WrittenIn text) (h' : s'.WrittenIn text) : s = s' := by
  have hread : (reader true).readAll text = .ok s := readAll_reader_iff.mpr ⟨h, Or.inl rfl⟩
  rw [readAll_reader_iff.mpr ⟨h', Or.inl rfl⟩] at hread
  exact (Except.ok.inj hread).symm

theorem writtenIn_chars (hs : s.Lettered) : s.WrittenIn s.chars :=
  writtenIn_iff.mpr ⟨[], s.chars, [], (List.append_nil _).symm, rfl, spelled_chars hs, rfl⟩

theorem WrittenIn.writtenTop (h : s.WrittenIn text) : s.WrittenTop text := by
  obtain ⟨w, spelling, w', htext, hw, hs, hw'⟩ := writtenIn_iff.mp h
  exact ⟨w, spelling, w', htext, hw, .strict hs, hw'⟩

end Whole

end Sentence

/-! ## The tokens of a text -/

namespace Token

/-- The token that starts with a character. -/
def ofHead : Char → Token
  | '!' => .negation
  | '(' => .opening
  | ')' => .closing
  | '&' => .connective .and
  | '|' => .connective .or
  | '-' => .connective .follows
  | '<' => .connective .equivalent
  | c => .letter c

/-- The first character of a token is not white space, and tells which token it is. -/
theorem Legible.exists_head {t : Token} (h : t.Legible) :
    ∃ c tail, t.chars = c :: tail ∧ isWhitespace c = false ∧ ofHead c = t := by
  cases t with
  | letter c =>
    refine ⟨c, [], rfl, ?_, ?_⟩
    · rcases h with h | h
      · have := bounds_of_isLower h
        exact isWhitespace_of_visible (by omega) (by omega)
      · have := bounds_of_isUpper h
        exact isWhitespace_of_visible (by omega) (by omega)
    · -- no other token starts with a letter
      have hne : ∀ x : Char, x.isLower = false → x.isUpper = false → c ≠ x := by
        rintro x hlow hup rfl
        simp [Legible, hlow, hup] at h
      unfold ofHead
      split
      case h_8 => rfl
      all_goals exact absurd rfl (hne _ (by decide) (by decide))
  | negation => exact ⟨'!', [], rfl, by decide, rfl⟩
  | opening => exact ⟨'(', [], rfl, by decide, rfl⟩
  | closing => exact ⟨')', [], rfl, by decide, rfl⟩
  | connective op =>
    cases op with
    | and => exact ⟨'&', [], rfl, by decide, rfl⟩
    | or => exact ⟨'|', [], rfl, by decide, rfl⟩
    | follows => exact ⟨'-', ['>'], rfl, by decide, rfl⟩
    | equivalent => exact ⟨'<', ['-', '>'], rfl, by decide, rfl⟩

theorem Legible.stops {t : Token} (h : t.Legible) (rest : List Char) : Stops isWhitespace (t.chars ++ rest) := by
  obtain ⟨c, tail, hchars, hc, -⟩ := h.exists_head
  rw [hchars]
  exact stops_cons.mpr hc

theorem Legible.append_inj {t t' : Token} {rest rest' : List Char} (h : t.Legible) (h' : t'.Legible)
    (heq : t.chars ++ rest = t'.chars ++ rest') : t = t' ∧ rest = rest' := by
  obtain ⟨c, tail, hchars, -, hc⟩ := h.exists_head
  obtain ⟨c', tail', hchars', -, hc'⟩ := h'.exists_head
  have hhead : c = c' := by
    rw [hchars, hchars'] at heq
    exact (List.cons.inj heq).1
  obtain rfl : t = t' := by rw [← hc, ← hc', hhead]
  exact ⟨rfl, List.append_cancel_left heq⟩

end Token

theorem Sentence.Lettered.legible {s : Sentence} (h : s.Lettered) : ∀ t ∈ s.tokens, t.Legible := by
  induction s with
  | atom letter => exact List.forall_mem_singleton.mpr (Or.inl (h.lower letter (List.mem_singleton.mpr rfl)))
  | var name => exact List.forall_mem_singleton.mpr (Or.inr (h.upper name (List.mem_singleton.mpr rfl)))
  | not s ih => exact List.forall_mem_cons.mpr ⟨trivial, ih ⟨h.lower, h.upper⟩⟩
  | binary op lhs rhs ihl ihr =>
    obtain ⟨hl, hr⟩ := Lettered.binary_iff.mp h
    have hclosing : ∀ t ∈ [Token.closing], t.Legible := List.forall_mem_singleton.mpr trivial
    have hrest := List.forall_mem_append.mpr ⟨ihr hr, hclosing⟩
    refine List.forall_mem_cons.mpr ⟨trivial, List.forall_mem_append.mpr ⟨ihl hl, ?_⟩⟩
    exact List.forall_mem_cons.mpr ⟨trivial, hrest⟩

/-- **A text is made of tokens in one way only.** -/
theorem Spaced.tokens_unique {ts ts' : List Token} {text : List Char} (h : Spaced ts text) (h' : Spaced ts' text)
    (hts : ∀ t ∈ ts, t.Legible) (hts' : ∀ t ∈ ts', t.Legible) : ts = ts' := by
  -- white space has no token in it
  have hblank : ∀ {w text : List Char} {t : Token}, t.Legible → isBlank (w ++ (t.chars ++ text)) = true → False := by
    intro w text t ht hblank
    obtain ⟨c, tail, hchars, hc, -⟩ := ht.exists_head
    have hmem : c ∈ w ++ (t.chars ++ text) := by simp [hchars]
    rw [isBlank_iff.mp hblank c hmem] at hc
    cases hc
  induction h generalizing ts' with
  | nil hw =>
    cases h' with
    | nil => rfl
    | cons hw' h' => exact (hblank (hts' _ List.mem_cons_self) hw).elim
  | @cons w text t ts hw h ih =>
    obtain ⟨ht, hts⟩ := List.forall_mem_cons.mp hts
    cases hts'eq : ts' with
    | nil =>
      rw [hts'eq] at h'
      cases h' with
      | nil hw' => exact (hblank ht hw').elim
    | cons t' ts'' =>
      rw [hts'eq] at h' hts'
      obtain ⟨ht', hts''⟩ := List.forall_mem_cons.mp hts'
      obtain ⟨w', text', heq, hw', h'⟩ := spaced_cons_iff.mp h'
      obtain ⟨-, heq⟩ :=
        append_inj_of_stops heq (isBlank_iff.mp hw) (ht.stops _) (isBlank_iff.mp hw') (ht'.stops _)
      obtain ⟨rfl, rfl⟩ := ht.append_inj ht' heq
      rw [ih h' hts hts'']

/-! ## The strict grammar -/

/-- **The strict grammar is read exactly, and reading undoes printing.**  A text is read as a pattern if and only if the
pattern is written in it, token by token with white space as one likes, and as a sentence if and only if moreover no
schema variable occurs.  So no text can be read in two ways, texts with the same tokens are read the same, and
everything over the letters `a`-`z` and `A`-`Z` is read back from its printed form. -/
theorem strict_grammar_exact :
    (∀ (text : String) (s : Sentence), Sentence.parsePattern text = .ok s ↔ s.WrittenIn text.toList) ∧
    (∀ (text : String) (s : Sentence),
      Sentence.parse text = .ok s ↔ s.WrittenIn text.toList ∧ s.isGround = true) ∧
    (∀ (text : List Char) (s s' : Sentence), s.WrittenIn text → s'.WrittenIn text → s = s') ∧
    (∀ (ts : List Token) (text text' : String), (∀ t ∈ ts, t.Legible) →
      Spaced ts text.toList → Spaced ts text'.toList → ∀ s : Sentence,
        (Sentence.parsePattern text = .ok s ↔ Sentence.parsePattern text' = .ok s) ∧
        (Sentence.parse text = .ok s ↔ Sentence.parse text' = .ok s)) ∧
    ∀ s : Sentence, s.Lettered →
      Sentence.parsePattern s.text = .ok s ∧ (s.isGround = true → Sentence.parse s.text = .ok s) := by
  refine ⟨fun _ _ => Sentence.parsePattern_eq_ok_iff, fun _ _ => Sentence.parse_eq_ok_iff,
    fun _ _ _ => Sentence.WrittenIn.unique, fun ts text text' hts h h' s => ?_, fun s hs => ?_⟩
  · -- whatever is written in a text has the tokens of that text
    have hsame : ∀ {text text' : List Char}, Spaced ts text → Spaced ts text' → s.WrittenIn text →
        s.WrittenIn text' := by
      intro text text' h h' hs
      obtain rfl := h.tokens_unique hs.spaced hts hs.lettered.legible
      exact ⟨hs.lettered, h'⟩
    have hiff : s.WrittenIn text.toList ↔ s.WrittenIn text'.toList := ⟨hsame h h', hsame h' h⟩
    rw [Sentence.parsePattern_eq_ok_iff, Sentence.parsePattern_eq_ok_iff, Sentence.parse_eq_ok_iff,
      Sentence.parse_eq_ok_iff, hiff]
    exact ⟨Iff.rfl, Iff.rfl⟩
  · have hwritten : s.WrittenIn s.text.toList := by
      rw [Sentence.text, String.toList_ofList]
      exact Sentence.writtenIn_chars hs
    exact ⟨Sentence.parsePattern_eq_ok_iff.mpr hwritten, fun hg => Sentence.parse_eq_ok_iff.mpr ⟨hwritten, hg⟩⟩

/-- The tokens of a pattern, once without white space and once with more of it than needed; inside a connective there
must be none. -/
theorem strict_grammar_exact_respaced : ∃ s : Sentence,
    Sentence.parsePattern "(!p->A)" = .ok s ∧ Sentence.parsePattern " ( !\tp -> A)" = .ok s ∧
    Sentence.parsePattern s.text = .ok s ∧ s.text = "(!p -> A)" ∧
    ∀ s' : Sentence, ¬ s'.WrittenIn "(!p- >A)".toList := by
  let s : Sentence := .binary .follows (.not (.atom 'p')) (.var 'A')
  obtain ⟨hpattern, -, -, hsame, hprinted⟩ := strict_grammar_exact
  have htight : Spaced s.tokens "(!p->A)".toList :=
    .cons (w := []) rfl (.cons (w := []) rfl (.cons (w := []) rfl (.cons (w := []) rfl (.cons (w := []) rfl
      (.cons (w := []) rfl (.nil rfl))))))
  have hloose : Spaced s.tokens " ( !\tp -> A)".toList :=
    .cons (w := [' ']) rfl (.cons (w := [' ']) rfl (.cons (w := ['\t']) rfl (.cons (w := [' ']) rfl
      (.cons (w := [' ']) rfl (.cons (w := []) rfl (.nil rfl))))))
  have hs : s.Lettered := ⟨List.all_eq_true.mp (by decide), List.all_eq_true.mp (by decide)⟩
  have hread : Sentence.parsePattern "(!p->A)" = .ok s := (hpattern _ s).mpr ⟨hs, htight⟩
  refine ⟨s, hread, ?_, (hprinted s hs).1, by decide, fun s' h' => ?_⟩
  · exact ((hsame s.tokens _ _ hs.legible htight hloose s).1).mp hread
  · have hrefuse : Sentence.parsePattern "(!p- >A)" = .error ⟨true, 3, [.description "a connective"]⟩ := by
      decide +kernel
    rw [(hpattern _ s').mpr h'] at hrefuse
    cases hrefuse

end Deduction
