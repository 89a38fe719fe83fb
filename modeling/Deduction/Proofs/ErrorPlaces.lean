import Deduction.Proofs.BlockGrammar
import Deduction.Proofs.Faults
import Deduction.Proofs.WrittenLines

/-!
# Where errors are

Lines are read one after the other, and reading stops at the first that does not fit: at a line that cannot be read, at
a line that is read and misplaced, or at the end, where only a separator is missing.  What comes below the line does
not matter.  The faults of the check are at steps, and steps know the lines that they were read from.

* `Proof.readSteps_line`, `Proof.readBody_line`, `Proof.readBody_assumption`: what reading does with one line, whatever
  comes below it.
* `Proof.readSteps_stopped`: how reading stops.
* `verify_error_located`: the place of every error of a proof text.
-/

namespace Deduction

namespace Proof

/-- The error says what is wrong with the text, which is line `source`: it cannot be read, or it does not fit. -/
inductive Blames (source : Nat) (text : String) : Located LayoutError → Prop
  | unreadable {err : ReadError} (h : Line.parse text source = .error err) :
      Blames source text ⟨.malformed err.mismatch, source, none⟩
  | misplaced {line : Line} (cause : LayoutError) (h : Line.parse text source = .ok line)
      (hcause : ∀ m, cause ≠ .malformed m := by simp) : Blames source text ⟨cause, source, some line⟩

/-- Reading the texts, which are the lines from `source` on, stops with the error: at a line, and then with the same
error whatever is below it, or at the end, and then a separator is all that is missing. -/
inductive Stopped (read : List String → Except (Located LayoutError) (List Step)) (source : Nat) :
    List String → Located LayoutError → Prop
  | atLine {front rest : List String} {bad : String} {lines : List Line} {e : Located LayoutError}
      (hfront : ReadAs source front lines) (hbad : Blames (source + front.length) bad e)
      (hsame : ∀ rest, read (front ++ bad :: rest) = .error e) : Stopped read source (front ++ bad :: rest) e
  | atEnd {texts : List String} {cause : LayoutError}
      (hcause : cause = .expectedSeparator ∨ cause = .expectedSeparatorOrPremise)
      (hmended : ∃ steps, read (texts ++ [Line.separatorMark]) = .ok steps) :
      Stopped read source texts ⟨cause, source + texts.length, none⟩

/-- The steps of the lines from `source` on, which are premises, a separator and a body. -/
def readSteps (isRule : String → Bool) (source : Nat) (texts : List String) :
    Except (Located LayoutError) (List Step) := do
  let read ← readPremises source texts
  return read.1 ++ (← readBody isRule read.2.1 1 read.2.2)

/-! ## One line -/

section OneLine

variable (isRule : String → Bool) (source depth : Nat) (text : String)

theorem parse_eq_map (texts : List String) : parse isRule texts = (readSteps isRule 0 texts).map Proof.mk := by
  unfold parse readSteps
  cases readPremises 0 texts with
  | error e => rfl
  | ok read =>
    obtain ⟨premises, next, rest⟩ := read
    cases hbody : readBody isRule next 1 rest <;> simp [hbody, bind, Except.bind, pure, Except.pure, Except.map]

theorem lineAt_cases : (∃ line, Line.parse text source = .ok line ∧ lineAt source text = .ok line) ∨
    ∃ e, Blames source text e ∧ lineAt source text = .error e := by
  cases hp : Line.parse text source with
  | ok line => exact Or.inl ⟨line, rfl, lineAt_of_parse hp⟩
  | error err => exact Or.inr ⟨_, .unreadable hp, by simp [lineAt, hp]⟩

theorem parse_separatorMark : Line.parse Line.separatorMark source = .ok (.separator 1) :=
  Line.parse_text_separator (Nat.le_refl 1) source

/-- Above the body, a line stops the reading, is the separator, or is a premise. -/
theorem readSteps_line :
    (∃ e, Blames source text e ∧ ∀ rest, readSteps isRule source (text :: rest) = .error e) ∨
    (∃ d, Line.parse text source = .ok (.separator d) ∧
      ∀ rest, readSteps isRule source (text :: rest) = (readBody isRule (source + 1) 1 rest).map id) ∨
    ∃ s, Line.parse text source = .ok (.step s) ∧
      ∀ rest, readSteps isRule source (text :: rest) = (readSteps isRule (source + 1) rest).map (s :: ·) := by
  rcases lineAt_cases source text with ⟨line, hp, hl⟩ | ⟨e, he, hl⟩
  · cases line with
    | separator d =>
      refine Or.inr (Or.inl ⟨d, hp, fun rest => ?_⟩)
      cases hbody : readBody isRule (source + 1) 1 rest <;>
        simp [readSteps, readPremises, hl, hbody, bind, Except.bind, pure, Except.pure, Except.map]
    | step s =>
      by_cases hprem : s.isPremise = true
      · by_cases hd : s.depth = 1
        · refine Or.inr (Or.inr ⟨s, hp, fun rest => ?_⟩)
          cases hprems : readPremises (source + 1) rest with
          | error e =>
            simp [readSteps, readPremises, hl, hprem, hd, hprems, bind, Except.bind, Except.map]
          | ok read =>
            cases hbody : readBody isRule read.2.1 1 read.2.2 <;>
              simp [readSteps, readPremises, hl, hprem, hd, hprems, hbody, bind, Except.bind, pure, Except.pure,
                Except.map]
        · refine Or.inl ⟨_, .misplaced .invalidDepth hp, fun rest => ?_⟩
          simp [readSteps, readPremises, hl, hprem, hd, bind, Except.bind, throw, throwThe, MonadExceptOf.throw]
      · by_cases ha : s.isAssumption = true
        · refine Or.inl ⟨_, .misplaced .expectedPremise hp, fun rest => ?_⟩
          simp [readSteps, readPremises, hl, hprem, ha, bind, Except.bind, throw, throwThe, MonadExceptOf.throw]
        · refine Or.inl ⟨_, .misplaced .expectedSeparatorOrPremise hp, fun rest => ?_⟩
          simp [readSteps, readPremises, hl, hprem, ha, bind, Except.bind, throw, throwThe, MonadExceptOf.throw]
  · refine Or.inl ⟨e, he, fun rest => ?_⟩
    simp [readSteps, readPremises, hl, bind, Except.bind]

/-- The line below an assumption is its separator or stops the reading. -/
theorem readBody_assumption {s : Step} (hl : lineAt source text = .ok (.step s)) (ha : s.isAssumption = true)
    (hd : s.depth = depth + 1) :
    readBody isRule source depth [text] = .error ⟨.expectedSeparator, source + 1, none⟩ ∧
    (∀ below d, Line.parse below (source + 1) = .ok (.separator d) → ∀ rest,
      readBody isRule source depth (text :: below :: rest) =
        (readBody isRule (source + 2) s.depth rest).map (s :: ·)) ∧
    ∀ below, (¬ ∃ d, Line.parse below (source + 1) = .ok (.separator d)) →
      ∃ e, Blames (source + 1) below e ∧ ∀ rest, readBody isRule source depth (text :: below :: rest) = .error e := by
  refine ⟨?_, fun below d hp' rest => ?_, fun below hno => ?_⟩
  · simp [readBody, hl, ha, hd, bind, Except.bind, throw, throwThe, MonadExceptOf.throw]
  · have hl' := lineAt_of_parse hp'
    cases hbody : readBody isRule (source + 2) s.depth rest <;> rw [hd] at hbody <;>
      simp [readBody, hl, hl', ha, hd, hbody, bind, Except.bind, pure, Except.pure, Except.map]
  · rcases lineAt_cases (source + 1) below with ⟨line, hp', hl'⟩ | ⟨e, he, hl'⟩
    · cases line with
      | separator d => exact absurd ⟨d, hp'⟩ hno
      | step s' =>
        refine ⟨_, .misplaced .expectedSeparator hp', fun rest => ?_⟩
        simp [readBody, hl, hl', ha, hd, bind, Except.bind, throw, throwThe, MonadExceptOf.throw]
    · refine ⟨e, he, fun rest => ?_⟩
      simp [readBody, hl, hl', ha, hd, bind, Except.bind]

/-- In the body, a line stops the reading, is a step that names a rule, or is an assumption. -/
theorem readBody_line :
    (∃ e, Blames source text e ∧ ∀ rest, readBody isRule source depth (text :: rest) = .error e) ∨
    (∃ s, Line.parse text source = .ok (.step s) ∧ ∀ rest,
      readBody isRule source depth (text :: rest) = (readBody isRule (source + 1) s.depth rest).map (s :: ·)) ∨
    ∃ s, Line.parse text source = .ok (.step s) ∧ s.isAssumption = true ∧ s.depth = depth + 1 := by
  rcases lineAt_cases source text with ⟨line, hp, hl⟩ | ⟨e, he, hl⟩
  · cases line with
    | separator d =>
      refine Or.inl ⟨_, .misplaced (.unknownRule Line.separatorMark) hp, fun rest => ?_⟩
      simp [readBody, hl, bind, Except.bind, throw, throwThe, MonadExceptOf.throw]
    | step s =>
      by_cases hlt : depth < s.depth
      · by_cases ha : s.isAssumption = true
        · by_cases hd : s.depth = depth + 1
          · exact Or.inr (Or.inr ⟨s, hp, ha, hd⟩)
          · refine Or.inl ⟨_, .misplaced .invalidDepth hp, fun rest => ?_⟩
            simp [readBody, hl, hlt, ha, hd, bind, Except.bind, throw, throwThe, MonadExceptOf.throw]
        · refine Or.inl ⟨_, .misplaced .expectedAssumption hp, fun rest => ?_⟩
          simp [readBody, hl, hlt, ha, bind, Except.bind, throw, throwThe, MonadExceptOf.throw]
      · by_cases hbad : (s.isPremise || s.isAssumption || !isRule s.reason.rule) = true
        · refine Or.inl ⟨_, .misplaced (.unknownRule s.reason.rule) hp, fun rest => ?_⟩
          simp only [readBody, hl, hlt, hbad, bind, Except.bind, if_true, if_false]
          rfl
        · refine Or.inr (Or.inl ⟨s, hp, fun rest => ?_⟩)
          cases hbody : readBody isRule (source + 1) s.depth rest <;>
            simp only [readBody, hl, hlt, hbad, hbody, bind, Except.bind, if_false, Bool.false_eq_true] <;> rfl
  · refine Or.inl ⟨e, he, fun rest => ?_⟩
    simp [readBody, hl, bind, Except.bind]

end OneLine

/-! ## All lines -/

section AllLines

variable {isRule : String → Bool} {source : Nat} {e : Located LayoutError}

theorem readAs_singleton {text : String} {line : Line} (h : Line.parse text source = .ok line) :
    ReadAs source [text] [line] :=
  readAs_cons.mpr ⟨h, readAs_nil.mpr rfl⟩

theorem ReadAs.append {front texts : List String} {lines lines' : List Line} (h : ReadAs source front lines)
    (h' : ReadAs (source + front.length) texts lines') : ReadAs source (front ++ texts) (lines ++ lines') := by
  induction lines generalizing source front with
  | nil =>
    have hlen := h.length_eq
    rw [List.length_nil, List.length_eq_zero_iff] at hlen
    subst hlen
    exact h'
  | cons line lines ih =>
    obtain ⟨text, front', rfl, hline, hrest⟩ := readAs_cons_right.mp h
    refine readAs_cons.mpr ⟨hline, ih hrest ?_⟩
    rwa [List.length_cons, Nat.add_comm front'.length, ← Nat.add_assoc] at h'

/-- Lines that are read without trouble go in front of those where reading stops. -/
theorem Stopped.prepend {read read' : List String → Except (Located LayoutError) (List Step)}
    {front texts : List String} {lines : List Line} {f : List Step → List Step} (hfront : ReadAs source front lines)
    (hpass : ∀ texts, read (front ++ texts) = (read' texts).map f)
    (h : Stopped read' (source + front.length) texts e) : Stopped read source (front ++ texts) e := by
  cases h with
  | atLine hread hbad hsame =>
    rw [← List.append_assoc]
    refine .atLine (hfront.append hread) ?_ fun rest => ?_
    · rw [List.length_append, ← Nat.add_assoc]
      exact hbad
    · rw [List.append_assoc, hpass, hsame]
      rfl
  | atEnd hcause hmended =>
    obtain ⟨steps, hmended⟩ := hmended
    rw [Nat.add_assoc, ← List.length_append]
    refine .atEnd hcause ⟨f steps, ?_⟩
    rw [List.append_assoc, hpass, hmended]
    rfl

theorem eq_error_of_map {ε α β : Type} {x : Except ε α} {f : α → β} {e : ε} (h : x.map f = .error e) :
    x = .error e := by
  cases x with
  | ok a => cases h
  | error e' =>
    cases h
    rfl

/-- The induction is on the number of texts, since an assumption takes two of them. -/
theorem readBody_stopped {texts : List String} {depth : Nat} (h : readBody isRule source depth texts = .error e) :
    Stopped (readBody isRule source depth) source texts e := by
  induction hn : texts.length using Nat.strongRecOn generalizing texts source depth with
  | ind n ih =>
    cases texts with
    | nil => cases h
    | cons text texts =>
      rw [List.length_cons] at hn
      rcases readBody_line isRule source depth text with ⟨e', he, hsame⟩ | ⟨s, hp, hpass⟩ | ⟨s, hp, ha, hd⟩
      · rw [hsame] at h
        cases h
        exact .atLine (readAs_nil.mpr rfl) he hsame
      · rw [hpass] at h
        exact (ih texts.length (by omega) (eq_error_of_map h) rfl).prepend (readAs_singleton hp) hpass
      · obtain ⟨hend, hpass, hstop⟩ := readBody_assumption isRule source depth text (lineAt_of_parse hp) ha hd
        cases texts with
        | nil =>
          rw [hend] at h
          cases h
          exact .atEnd (Or.inl rfl) ⟨[s], hpass _ _ (parse_separatorMark _) []⟩
        | cons below texts =>
          rw [List.length_cons] at hn
          by_cases hsep : ∃ d, Line.parse below (source + 1) = .ok (.separator d)
          · obtain ⟨d, hp'⟩ := hsep
            rw [hpass below d hp'] at h
            have hread : ReadAs source [text, below] [.step s, .separator d] :=
              readAs_cons.mpr ⟨hp, readAs_singleton hp'⟩
            exact (ih texts.length (by omega) (eq_error_of_map h) rfl).prepend hread (hpass below d hp')
          · obtain ⟨e', he, hsame⟩ := hstop below hsep
            rw [hsame] at h
            cases h
            exact .atLine (readAs_singleton hp) he hsame

theorem readSteps_stopped {texts : List String} (h : readSteps isRule source texts = .error e) :
    Stopped (readSteps isRule source) source texts e := by
  induction texts generalizing source with
  | nil =>
    cases h
    show Stopped _ source [] ⟨_, source + ([] : List String).length, none⟩
    refine .atEnd (Or.inr rfl) ⟨[], ?_⟩
    simp [readSteps, readPremises, lineAt_of_parse (parse_separatorMark source), readBody, bind, Except.bind, pure,
      Except.pure]
  | cons text texts ih =>
    rcases readSteps_line isRule source text with ⟨e', he, hsame⟩ | ⟨d, hp, hpass⟩ | ⟨s, hp, hpass⟩
    · rw [hsame] at h
      cases h
      exact .atLine (readAs_nil.mpr rfl) he hsame
    · rw [hpass] at h
      exact (readBody_stopped (eq_error_of_map h)).prepend (readAs_singleton hp) hpass
    · rw [hpass] at h
      exact (ih (eq_error_of_map h)).prepend (readAs_singleton hp) hpass

end AllLines

/-! ## Lines that have been read -/

section Lines

variable {source : Nat} {texts : List String} {lines : List Line}

theorem ReadAs.exists_text (h : ReadAs source texts lines) {i : Nat} {line : Line} (hl : lines[i]? = some line) :
    ∃ text, texts[i]? = some text ∧ Line.parse text (source + i) = .ok line := by
  induction lines generalizing source texts i with
  | nil => cases hl
  | cons first rest ih =>
    obtain ⟨text, texts', rfl, hfirst, hrest⟩ := readAs_cons_right.mp h
    cases i with
    | zero =>
      rw [List.getElem?_cons_zero, Option.some.injEq] at hl
      exact ⟨text, rfl, hl ▸ hfirst⟩
    | succ i =>
      obtain ⟨text', htext, hparse⟩ := ih hrest hl
      refine ⟨text', htext, ?_⟩
      rwa [Nat.add_assoc, Nat.add_comm 1] at hparse

/-- Every step of a proof can be read again at its source. -/
theorem exists_text_of_mem {library : Library} {p : Proof} (h : readProof library texts = .ok p) {s : Step}
    (hs : s ∈ p.steps) : ∃ text, texts[s.source]? = some text ∧ Line.parse text s.source = .ok (.step s) := by
  obtain ⟨lines, hread, -, hsteps⟩ := readProof_eq_ok_iff.mp h
  rw [hsteps] at hs
  obtain ⟨line, hline, hstep⟩ := List.mem_filterMap.mp hs
  have hline' : line = .step s := by
    cases line with
    | separator d => cases hstep
    | step t => cases hstep; rfl
  subst hline'
  obtain ⟨i, hi⟩ := List.mem_iff_getElem?.mp hline
  have hsource := hread.source_eq hi
  rw [Nat.zero_add] at hsource
  subst hsource
  have htext := hread.exists_text hi
  rwa [Nat.zero_add] at htext

end Lines

end Proof

/-! ## Proof texts -/

section Texts

variable {library : Library} {task : Task} {lines : List String} {e : VerificationError}

theorem readProof_eq_error (h : readProof library lines = .error e) :
    ∃ e', e = .ofLayout e' ∧ Proof.Stopped (Proof.readSteps library.contains 0) 0 lines e' := by
  unfold readProof at h
  rw [Proof.parse_eq_map] at h
  cases hread : Proof.readSteps library.contains 0 lines with
  | ok steps => simp [hread, Except.map, Except.mapError] at h
  | error e' =>
    refine ⟨e', ?_, Proof.readSteps_stopped hread⟩
    simpa [hread, Except.map, Except.mapError, eq_comm] using h

theorem readProof_of_readSteps {steps : List Step} (h : Proof.readSteps library.contains 0 lines = .ok steps) :
    readProof library lines = .ok ⟨steps⟩ := by
  simp [readProof, Proof.parse_eq_map, h, Except.map, Except.mapError]

theorem readProof_error_of_readSteps {e' : Located LayoutError}
    (h : Proof.readSteps library.contains 0 lines = .error e') : readProof library lines = .error (.ofLayout e') := by
  simp [readProof, Proof.parse_eq_map, h, Except.map, Except.mapError]

/-- Either the text cannot be read, or a proof has been read and a pass of the check finds the fault. -/
theorem verify_eq_error (h : verify library task lines = .error e) : readProof library lines = .error e ∨
    ∃ p e', readProof library lines = .ok p ∧ e = .ofCheck e' ∧ Proof.Found library task p.steps e' := by
  unfold verify at h
  cases hread : readProof library lines with
  | error e' =>
    left
    simpa [hread, bind, Except.bind] using h
  | ok p =>
    right
    cases hcheck : p.check library task with
    | ok u => simp [hread, hcheck, bind, Except.bind, pure, Except.pure, Except.mapError] at h
    | error e' =>
      refine ⟨p, e', rfl, ?_, Proof.check_eq_error hcheck⟩
      simpa [hread, hcheck, bind, Except.bind, Except.mapError, eq_comm] using h

/-- The error of a proof text is where its fault is. -/
structure VerificationError.Placed (library : Library) (lines : List String) (e : VerificationError) : Prop where
  /-- Past the last line there is the end of the text only. -/
  source_le : e.source ≤ lines.length
  /-- The line of the error is what the text at its place is read as. -/
  line_read : ∀ line, e.line = some line → ∃ text, lines[e.source]? = some text ∧ Line.parse text e.source = .ok line
  /-- There is no line if the text there cannot be read, if the text has ended, or if there are no steps at all. -/
  no_line : e.line = none →
    (∃ text err, lines[e.source]? = some text ∧ Line.parse text e.source = .error err ∧
      e.cause = .layout (.malformed err.mismatch)) ∨
    (e.source = lines.length ∧
      (e.cause = .layout .expectedSeparator ∨ e.cause = .layout .expectedSeparatorOrPremise)) ∨
    (readProof library lines = .ok ⟨[]⟩ ∧ e.source = 0 ∧ ∃ sentence, e.cause = .check (.missingConclusion sentence))
  /-- A layout error at a line is the first: the lines above can be read, and those below do not matter. -/
  first : e.isLayout = true → e.source < lines.length →
    (∀ lines', lines'.take (e.source + 1) = lines.take (e.source + 1) → readProof library lines' = .error e) ∧
      ∀ i < e.source, ∃ text line, lines[i]? = some text ∧ Line.parse text i = .ok line
  /-- A layout error at the end is mended by a separator. -/
  mended : e.isLayout = true → e.source = lines.length →
    ∃ p, readProof library (lines ++ ["|-"]) = .ok p

/-- Texts that agree up to and including a line differ below it only. -/
theorem exists_append_of_take_eq {front rest lines' : List String} {bad : String}
    (h : lines'.take (front.length + 1) = (front ++ bad :: rest).take (front.length + 1)) :
    ∃ rest', lines' = front ++ bad :: rest' := by
  have hcut : (front ++ bad :: rest).take (front.length + 1) = front ++ [bad] := by
    rw [List.take_append, List.take_of_length_le (by omega), Nat.add_sub_cancel_left, List.take_succ_cons,
      List.take_zero]
  refine ⟨lines'.drop (front.length + 1), ?_⟩
  calc lines' = lines'.take (front.length + 1) ++ lines'.drop (front.length + 1) := (List.take_append_drop _ _).symm
    _ = front ++ bad :: lines'.drop (front.length + 1) := by rw [h, hcut, List.append_assoc, List.singleton_append]

theorem placed_at_line {front rest : List String} {bad : String} {read : List Line} {e : Located LayoutError}
    (hfront : Proof.ReadAs 0 front read) (hbad : Proof.Blames front.length bad e)
    (hsame : ∀ rest, Proof.readSteps library.contains 0 (front ++ bad :: rest) = .error e) :
    (VerificationError.ofLayout e).Placed library (front ++ bad :: rest) := by
  have hat : (front ++ bad :: rest)[front.length]? = some bad := by simp
  have hlt : front.length < (front ++ bad :: rest).length := by simp
  have hsource : (VerificationError.ofLayout e).source = front.length := by cases hbad <;> rfl
  refine ⟨by omega, ?_, ?_, ?_, ?_⟩
  · intro line hline
    rw [hsource]
    cases hbad with
    | unreadable hp => cases hline
    | misplaced cause hp =>
      cases hline
      exact ⟨bad, hat, hp⟩
  · intro hline
    rw [hsource]
    cases hbad with
    | unreadable hp => exact Or.inl ⟨bad, _, hat, hp, rfl⟩
    | misplaced cause hp => cases hline
  · intro _ _
    rw [hsource]
    constructor
    · intro lines' hagree
      obtain ⟨rest', rfl⟩ := exists_append_of_take_eq hagree
      exact readProof_error_of_readSteps (hsame rest')
    · intro i hi
      have hi' : i < read.length := by rwa [← hfront.length_eq]
      obtain ⟨text, htext, hparse⟩ := hfront.exists_text (List.getElem?_eq_getElem hi')
      rw [Nat.zero_add] at hparse
      exact ⟨text, _, by rw [List.getElem?_append_left hi, htext], hparse⟩
  · intro _ hend
    omega

theorem placed_at_end {cause : LayoutError}
    (hcause : cause = .expectedSeparator ∨ cause = .expectedSeparatorOrPremise)
    (hmended : ∃ steps, Proof.readSteps library.contains 0 (lines ++ [Line.separatorMark]) = .ok steps) :
    (VerificationError.ofLayout ⟨cause, lines.length, none⟩).Placed library lines where
  source_le := Nat.le_refl _
  line_read line hline := by cases hline
  no_line _ := by
    refine Or.inr (Or.inl ⟨rfl, ?_⟩)
    rcases hcause with rfl | rfl
    · exact Or.inl rfl
    · exact Or.inr rfl
  first _ hlt := absurd hlt (Nat.lt_irrefl _)
  mended _ _ := by
    obtain ⟨steps, hsteps⟩ := hmended
    exact ⟨⟨steps⟩, readProof_of_readSteps hsteps⟩

theorem placed_of_readProof (h : readProof library lines = .error e) : e.Placed library lines := by
  obtain ⟨e', rfl, hstop⟩ := readProof_eq_error h
  cases hstop with
  | atLine hfront hbad hsame =>
    rw [Nat.zero_add] at hbad
    exact placed_at_line hfront hbad hsame
  | atEnd hcause hmended =>
    rw [Nat.zero_add]
    exact placed_at_end hcause hmended

theorem placed_of_found {p : Proof} {e' : Located CheckError} (h : readProof library lines = .ok p)
    (hf : Proof.Found library task p.steps e') : (VerificationError.ofCheck e').Placed library lines := by
  have hcheck : (VerificationError.ofCheck e').isLayout ≠ true := Bool.false_ne_true
  rcases hf.place with ⟨s, hs, cause, rfl⟩ | ⟨hsteps, sentence, rfl⟩
  · obtain ⟨text, htext, hparse⟩ := Proof.exists_text_of_mem h hs
    have hlt : s.source < lines.length := (List.getElem?_eq_some_iff.mp htext).1
    refine ⟨Nat.le_of_lt hlt, ?_, ?_, fun hlayout => absurd hlayout hcheck, fun hlayout => absurd hlayout hcheck⟩
    · intro line hline
      cases hline
      exact ⟨text, htext, hparse⟩
    · intro hline
      cases hline
  · have hp : p = ⟨[]⟩ := by rw [← hsteps]
    refine ⟨Nat.zero_le _, ?_, ?_, fun hlayout => absurd hlayout hcheck, fun hlayout => absurd hlayout hcheck⟩
    · intro line hline
      cases hline
    · intro _
      exact Or.inr (Or.inr ⟨hp ▸ h, rfl, sentence, rfl⟩)

end Texts

/-- **Errors are located on the right line, and layout errors on the first.**  The place of an error is a line of the
text or its end.  The line that comes with the error is what stands there, and if there is none, then because it cannot
be read, because the text has ended, or because the proof has no steps.  A layout error depends on the lines up to its
place only, all of which but the last can be read; at the end of the text, adding a separator mends it. -/
theorem verify_error_located {library : Library} {task : Task} {lines : List String} {e : VerificationError}
    (h : verify library task lines = .error e) : e.Placed library lines := by
  rcases verify_eq_error h with hread | ⟨p, e', hread, rfl, hfound⟩
  · exact placed_of_readProof hread
  · exact placed_of_found hread hfound

/-- A missing separator is reported at the line in its place, whatever is below it, or at the end, where adding it is
enough. -/
theorem verify_error_located_missing_separator :
    (∃ e, verify Library.builtin {} ["|1 p V", "|-", "||2 q A", "||3 q R(2)", "?"] = .error e ∧ e.source = 3 ∧
      ∀ below, readProof Library.builtin (["|1 p V", "|-", "||2 q A", "||3 q R(2)"] ++ below) = .error e) ∧
    (∃ e, verify Library.builtin {} ["|1 p V", "|-", "||2 q A"] = .error e ∧ e.source = 3 ∧ e.line = none) ∧
    ∃ p, readProof Library.builtin (["|1 p V", "|-", "||2 q A"] ++ ["|-"]) = .ok p := by
  have hline : verify Library.builtin {} ["|1 p V", "|-", "||2 q A", "||3 q R(2)", "?"] =
      .error ⟨.layout .expectedSeparator, 3, some (.step ⟨3, 2, 2, .atom 'q', ⟨"R", [.line 1]⟩⟩)⟩ := by decide +kernel
  have hend : verify Library.builtin {} ["|1 p V", "|-", "||2 q A"] =
      .error ⟨.layout .expectedSeparator, 3, none⟩ := by decide +kernel
  have hfirst := (verify_error_located hline).first rfl (by decide)
  have hmended := (verify_error_located hend).mended rfl rfl
  exact ⟨⟨_, hline, rfl, fun below => hfirst.1 _ rfl⟩, ⟨_, hend, rfl, rfl⟩, hmended⟩

end Deduction
