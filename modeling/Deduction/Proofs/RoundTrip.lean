import Deduction.Proofs.Loading

/-!
# Writing and reading proofs

A proof is written with a separator below its premises and below every assumption, which is where the reader expects
them.  The two sides meet at the block grammar: the lines of a laid-out proof follow it, and a text is read if its lines
do.  What changes on the way are the sources, which become the places among the written lines.  A text that was read
had its separators at the very same places, whatever their depths were, so its proof keeps even the sources.

* `Proof.relocated`: a proof with the places of its steps among the written lines as their sources.
* `Proof.readProof_toLines_of_laidOut`: the lines of a proof are read as the relocated proof.
* `Proof.relocated_of_readProof`: a proof that was read is not changed by this.
* `readProof_toLines`: both for the libraries that can be loaded.
-/

namespace Deduction

namespace Line

/-- The line as it is read at `source`. -/
def placedAt (source : Nat) : Line → Line
  | .separator depth => .separator depth
  | .step s => .step { s with source }

/-- The lines as they are read from `source` on. -/
def placed : Nat → List Line → List Line
  | _, [] => []
  | source, line :: rest => line.placedAt source :: placed (source + 1) rest

/-- The line can be written: a separator has a bar, and a step has the name of a rule. -/
def Writable : Line → Prop
  | .separator depth => 1 ≤ depth
  | .step s => s.Writable ∧ isRuleName s.reason.rule = true

end Line

/-- The proof with the places of its steps among the written lines as their sources. -/
def Proof.relocated (p : Proof) : Proof := ⟨Line.steps (Line.placed 0 p.lines)⟩

/-- A library as it comes from a program: empty, built in or read from a rule file, and then extended by templates of
other such libraries. -/
inductive Library.Loaded : Library → Prop
  | empty : Loaded Library.empty
  | builtin : Loaded Library.builtin
  | file {text : String} {l : Library} (h : Library.parse text = .ok l) : Loaded l
  | add {l other : Library} {t : Template} (hl : Loaded l) (hother : Loaded other) (ht : t ∈ other.templates) :
      Loaded (l.add t)

/-! ## Rule names -/

namespace Library

theorem Loaded.built {l : Library} (h : l.Loaded) : l.Built := by
  induction h with
  | empty => exact .empty
  | builtin => exact built_ofTemplates _
  | file hfile => exact .file hfile
  | add _ _ _ ih _ => exact ih.add _

theorem Loaded.isRuleName_of_mem {l : Library} (h : l.Loaded) : ∀ t ∈ l.templates, isRuleName t.name = true := by
  induction h with
  | empty => exact fun t ht => absurd ht List.not_mem_nil
  | builtin =>
    intro t ht
    have hall : Builtin.templates.all (fun t => isRuleName t.name) = true := by decide +kernel
    exact List.all_eq_true.mp hall t (mem_templates_ofTemplates.mp ht)
  | file hfile =>
    obtain ⟨ts, rfl, hts⟩ := ofTemplates_of_parse hfile
    intro t ht
    obtain ⟨d, hd⟩ := hts t (mem_templates_ofTemplates.mp ht)
    exact Definition.isRuleName_of_toTemplate hd
  | @add l other t hl _ ht ih ihother =>
    obtain ⟨ts, rfl⟩ := hl.built.exists_ofTemplates
    intro u hu
    rw [← ofTemplates_concat, mem_templates_ofTemplates, List.mem_append, List.mem_singleton] at hu
    rcases hu with hu | rfl
    · exact ih u (mem_templates_ofTemplates.mpr hu)
    · exact ihother u ht

theorem Loaded.isRuleName_of_contains {l : Library} (h : l.Loaded) {name : String} (hname : l.contains name = true) :
    isRuleName name = true := by
  obtain ⟨t, ht, rfl⟩ := h.built.contains_iff.mp hname
  exact h.isRuleName_of_mem t ht

end Library

/-! ## Places -/

namespace Line

theorem placed_append (source : Nat) (front rest : List Line) :
    placed source (front ++ rest) = placed source front ++ placed (source + front.length) rest := by
  induction front generalizing source with
  | nil => rfl
  | cons line front ih =>
    rw [List.cons_append, placed, placed, ih, List.cons_append, List.length_cons, Nat.add_right_comm, Nat.add_assoc]

theorem steps_append (front rest : List Line) : steps (front ++ rest) = steps front ++ steps rest :=
  List.filterMap_append

/-- Only the sources change, and they become the places of the steps. -/
theorem forall₂_steps_placed (front lines : List Line) :
    List.Forall₂ (fun s s' => (front ++ lines)[s'.source]? = some (.step s) ∧ s' = { s with source := s'.source })
      (steps lines) (steps (placed front.length lines)) := by
  induction lines generalizing front with
  | nil => exact .nil
  | cons line rest ih =>
    -- the line itself goes to the front for the lines below it
    have hrest := ih (front ++ [line])
    rw [List.append_assoc, List.length_append] at hrest
    cases line with
    | separator depth => exact hrest
    | step s =>
      refine .cons ⟨?_, rfl⟩ hrest
      rw [List.getElem?_append_right (Nat.le_refl _), Nat.sub_self]
      rfl

end Line

namespace Proof

section Places

variable {isRule : String → Bool} {depth source : Nat} {texts : List String} {lines : List Line}

/-- Lines that were read are where they were read. -/
theorem ReadAs.placed_eq (h : ReadAs source texts lines) : Line.placed source lines = lines := by
  induction lines generalizing source texts with
  | nil => rfl
  | cons line rest ih =>
    obtain ⟨text, texts', rfl, hline, hrest⟩ := readAs_cons_right.mp h
    rw [Line.placed, ih hrest]
    cases line with
    | separator depth => rfl
    | step s =>
      have hs : s.source = source := (Line.step_of_parse hline).1
      rw [Line.placedAt, ← hs]

theorem ReadAs.writable (h : ReadAs source texts lines) : ∀ s ∈ Line.steps lines, s.Writable := by
  induction lines generalizing source texts with
  | nil => exact fun s hs => absurd hs List.not_mem_nil
  | cons line rest ih =>
    obtain ⟨text, texts', rfl, hline, hrest⟩ := readAs_cons_right.mp h
    cases line with
    | separator depth => exact ih hrest
    | step s => exact List.forall_mem_cons.mpr ⟨(Line.writable_of_parse hline).1, ih hrest⟩

theorem readAs_map_text (h : ∀ line ∈ lines, line.Writable) :
    ReadAs source (lines.map Line.text) (Line.placed source lines) := by
  induction lines generalizing source with
  | nil => exact readAs_nil.mpr rfl
  | cons line rest ih =>
    obtain ⟨hline, hrest⟩ := List.forall_mem_cons.mp h
    refine readAs_cons.mpr ⟨?_, ih hrest⟩
    cases line with
    | separator depth => exact Line.parse_text_separator hline source
    | step s => exact Line.parse_text_step hline.1 hline.2 source

/-! The grammar does not look at sources. -/

theorem Body.placed (h : Body isRule depth lines) : Body isRule depth (Line.placed source lines) := by
  induction h generalizing source with
  | nil => exact .nil
  | rule hp ha hrule hd _ ih => exact .rule hp ha hrule hd ih
  | subproof ha hd _ ih => exact .subproof ha hd ih

theorem placed_map_step {premises : List Step} (h : ∀ s ∈ premises, s.isPremise = true ∧ s.depth = 1) :
    ∃ moved : List Step, Line.placed source (premises.map Line.step) = moved.map Line.step ∧
      ∀ s ∈ moved, s.isPremise = true ∧ s.depth = 1 := by
  induction premises generalizing source with
  | nil => exact ⟨[], rfl, h⟩
  | cons s rest ih =>
    obtain ⟨hs, hrest⟩ := List.forall_mem_cons.mp h
    obtain ⟨moved, heq, hmoved⟩ := @ih (source + 1) hrest
    refine ⟨{ s with source } :: moved, ?_, List.forall_mem_cons.mpr ⟨hs, hmoved⟩⟩
    rw [List.map_cons, Line.placed, heq, Line.placedAt, List.map_cons]

theorem Grammatical.placed (h : Grammatical isRule lines) : Grammatical isRule (Line.placed source lines) := by
  obtain ⟨premises, below, body, rfl, hp, hbody⟩ := h
  obtain ⟨moved, heq, hmoved⟩ := @placed_map_step source _ hp
  refine ⟨moved, below, Line.placed (source + premises.length + 1) body, ?_, hmoved, ?_⟩
  · rw [Line.placed_append, heq, Line.placed, Line.placedAt, List.length_map]
  · rw [lastDepth_eq_one fun s hs => (hp s hs).2] at hbody
    rw [lastDepth_eq_one fun s hs => (hmoved s hs).2]
    exact hbody.placed

end Places

/-! ## The lines of a proof -/

section Lines

variable {isRule : String → Bool} {premises body steps : List Step} {lines : List Line} {depth source : Nat} {s : Step}

theorem bodyLines_cons_of_assumption (ha : s.isAssumption = true) (rest : List Step) :
    bodyLines (s :: rest) = .step s :: .separator s.depth :: bodyLines rest := by
  simp [bodyLines, ha]

theorem bodyLines_cons_of_rule (ha : s.isAssumption = false) (rest : List Step) :
    bodyLines (s :: rest) = .step s :: bodyLines rest := by
  simp [bodyLines, ha]

theorem steps_bodyLines (steps : List Step) : Line.steps (bodyLines steps) = steps := by
  induction steps with
  | nil => rfl
  | cons s rest ih =>
    cases ha : s.isAssumption with
    | true => rw [bodyLines_cons_of_assumption ha, Line.steps_cons_step, Line.steps_cons_separator, ih]
    | false => rw [bodyLines_cons_of_rule ha, Line.steps_cons_step, ih]

theorem steps_lines (p : Proof) : Line.steps p.lines = p.steps := by
  rw [Proof.lines, Line.steps_map_step_append, Line.steps_cons_separator, steps_bodyLines, List.take_append_drop]

theorem assumption_not_premise (h : s.isAssumption = true) : s.isPremise = false := by
  cases hp : s.isPremise with
  | false => rfl
  | true =>
    rw [premise_not_assumption hp] at h
    cases h

theorem Body.isPremise_eq_false (h : Body isRule depth lines) : ∀ s ∈ Line.steps lines, s.isPremise = false := by
  induction h with
  | nil => exact fun s hs => absurd hs List.not_mem_nil
  | rule hp ha hrule hd _ ih => exact List.forall_mem_cons.mpr ⟨hp, ih⟩
  | subproof ha hd _ ih => exact List.forall_mem_cons.mpr ⟨assumption_not_premise ha, ih⟩

/-- The separator stands right below the premises, since the body has none. -/
theorem lines_append (hp : ∀ s ∈ premises, s.isPremise = true) (hb : ∀ s ∈ body, s.isPremise = false) :
    Proof.lines ⟨premises ++ body⟩ = premises.map Line.step ++ .separator 1 :: bodyLines body := by
  have hall : premises.filter Step.isPremise = premises := List.filter_eq_self.mpr hp
  have hnone : body.filter Step.isPremise = [] := List.filter_eq_nil_iff.mpr fun s hs => by simp [hb s hs]
  have hcount : (Proof.mk (premises ++ body)).premises = premises := by
    rw [Proof.premises, List.filter_append, hall, hnone, List.append_nil]
  rw [Proof.lines, hcount, List.take_left, List.drop_left]

theorem BodyLaidOut.grammatical (h : BodyLaidOut isRule depth steps) : Body isRule depth (bodyLines steps) := by
  induction steps generalizing depth with
  | nil => exact .nil
  | cons s rest ih =>
    obtain ⟨hs, hrest⟩ := h
    unfold Step.Follows at hs
    cases ha : s.isAssumption with
    | true =>
      rw [if_pos ha] at hs
      rw [bodyLines_cons_of_assumption ha]
      exact .subproof ha hs (ih hrest)
    | false =>
      rw [if_neg (by simp [ha])] at hs
      obtain ⟨hp, hrule, -, hd⟩ := hs
      rw [bodyLines_cons_of_rule ha]
      exact .rule hp ha hrule hd (ih hrest)

/-- **A laid-out proof is written in lines that follow the block grammar.** -/
theorem LaidOut.grammatical (h : LaidOut isRule steps) : Grammatical isRule (Proof.mk steps).lines := by
  obtain ⟨premises, body, rfl, hp, hb⟩ := h
  have hnone := hb.grammatical.isPremise_eq_false
  rw [steps_bodyLines] at hnone
  refine ⟨premises, 1, bodyLines body, lines_append (fun s hs => (hp s hs).1) hnone, hp, ?_⟩
  rw [lastDepth_eq_one fun s hs => (hp s hs).2]
  exact hb.grammatical

/-- Writing puts the separators of a body back where they were, with depths of its own. -/
theorem Body.steps_placed (h : Body isRule depth lines) :
    Line.steps (Line.placed source (bodyLines (Line.steps lines))) = Line.steps (Line.placed source lines) := by
  induction h generalizing source with
  | nil => rfl
  | rule hp ha hrule hd _ ih =>
    rw [Line.steps_cons_step, bodyLines_cons_of_rule ha]
    exact congrArg (List.cons _) ih
  | subproof ha hd _ ih =>
    rw [Line.steps_cons_step, Line.steps_cons_separator, bodyLines_cons_of_assumption ha]
    exact congrArg (List.cons _) ih

theorem Grammatical.steps_placed (h : Grammatical isRule lines) :
    Line.steps (Line.placed source (Proof.mk (Line.steps lines)).lines) = Line.steps (Line.placed source lines) := by
  obtain ⟨premises, below, body, rfl, hp, hbody⟩ := h
  have hbelow : ∀ d k rest, Line.steps (Line.placed k (.separator d :: rest)) = Line.steps (Line.placed (k + 1) rest) :=
    fun d k rest => rfl
  rw [Line.steps_map_step_append, Line.steps_cons_separator,
    lines_append (fun s hs => (hp s hs).1) hbody.isPremise_eq_false]
  rw [Line.placed_append, Line.placed_append, Line.steps_append, Line.steps_append, hbelow, hbelow, hbody.steps_placed]

end Lines

/-! ## Reading what was written -/

section Reading

variable {library : Library} {steps : List Step} {texts : List String} {p : Proof}

theorem mem_bodyLines {line : Line} (h : line ∈ bodyLines steps) :
    (∃ s ∈ steps, line = .step s) ∨ ∃ s ∈ steps, line = .separator s.depth := by
  obtain ⟨s, hs, hline⟩ := List.mem_flatMap.mp h
  split at hline
  · simp only [List.mem_cons, List.not_mem_nil, or_false] at hline
    rcases hline with rfl | rfl
    · exact Or.inl ⟨s, hs, rfl⟩
    · exact Or.inr ⟨s, hs, rfl⟩
  · exact Or.inl ⟨s, hs, List.mem_singleton.mp hline⟩

theorem writable_lines (hw : ∀ s ∈ p.steps, s.Writable) (hname : ∀ s ∈ p.steps, isRuleName s.reason.rule = true) :
    ∀ line ∈ p.lines, line.Writable := by
  have hstep : ∀ s ∈ p.steps, (Line.step s).Writable := fun s hs => ⟨hw s hs, hname s hs⟩
  intro line hline
  rw [Proof.lines, List.mem_append, List.mem_cons, List.mem_map] at hline
  rcases hline with ⟨s, hs, rfl⟩ | rfl | hline
  · exact hstep s (List.mem_of_mem_take hs)
  · exact Nat.le_refl 1
  · rcases mem_bodyLines hline with ⟨s, hs, rfl⟩ | ⟨s, hs, rfl⟩
    · exact hstep s (List.mem_of_mem_drop hs)
    · exact (hw s (List.mem_of_mem_drop hs)).depth

theorem BodyLaidOut.isRuleName (hl : library.Loaded) {depth : Nat} (h : BodyLaidOut library.contains depth steps) :
    ∀ s ∈ steps, isRuleName s.reason.rule = true := by
  induction steps generalizing depth with
  | nil => exact fun s hs => absurd hs List.not_mem_nil
  | cons s rest ih =>
    obtain ⟨hs, hrest⟩ := h
    refine List.forall_mem_cons.mpr ⟨?_, ih hrest⟩
    unfold Step.Follows at hs
    by_cases ha : s.isAssumption = true
    · have hrule : s.reason.rule = assumptionName := by simpa [Step.isAssumption, Justification.isAssumption] using ha
      rw [hrule]
      decide +kernel
    · rw [if_neg ha] at hs
      exact hl.isRuleName_of_contains hs.2.1

theorem LaidOut.isRuleName (hl : library.Loaded) (h : LaidOut library.contains steps) :
    ∀ s ∈ steps, isRuleName s.reason.rule = true := by
  obtain ⟨premises, body, rfl, hp, hb⟩ := h
  intro s hs
  rcases List.mem_append.mp hs with hs | hs
  · have hrule : s.reason.rule = premiseName := by
      simpa [Step.isPremise, Justification.isPremise] using (hp s hs).1
    rw [hrule]
    decide +kernel
  · exact hb.isRuleName hl s hs

/-- **The lines of a proof are read as the proof**, with its steps where they were written. -/
theorem readProof_toLines_of_laidOut (hl : library.Loaded) (h : LaidOut library.contains p.steps)
    (hw : ∀ s ∈ p.steps, s.Writable) : readProof library p.toLines = .ok p.relocated := by
  have hread : ReadAs 0 p.toLines (Line.placed 0 p.lines) := readAs_map_text (writable_lines hw (h.isRuleName hl))
  exact readProof_eq_ok_iff.mpr ⟨_, hread, h.grammatical.placed, rfl⟩

/-- **A proof that was read has its steps where they are written.** -/
theorem relocated_of_readProof (h : readProof library texts = .ok p) : p.relocated = p := by
  obtain ⟨lines, hread, hgram, hsteps⟩ := readProof_eq_ok_iff.mp h
  obtain rfl : p = ⟨Line.steps lines⟩ := by rw [← hsteps]
  rw [relocated, hgram.steps_placed, hread.placed_eq]

theorem writable_of_readProof (h : readProof library texts = .ok p) : ∀ s ∈ p.steps, s.Writable := by
  obtain ⟨lines, hread, -, hsteps⟩ := readProof_eq_ok_iff.mp h
  rw [hsteps]
  exact hread.writable

end Reading

end Proof

/-- **Reading undoes writing.**  A laid-out list of steps that can be written is read back from its lines, with only the
sources replaced by the places of the steps among these lines.  Every proof that is read from any text is such a list,
and it is read back from its lines as it was, sources included. -/
theorem readProof_toLines {library : Library} (hl : library.Loaded) :
    (∀ p : Proof, Proof.LaidOut library.contains p.steps → (∀ s ∈ p.steps, s.Writable) →
      readProof library p.toLines = .ok p.relocated ∧
      List.Forall₂ (fun s s' => p.lines[s'.source]? = some (.step s) ∧ s' = { s with source := s'.source })
        p.steps p.relocated.steps) ∧
    ∀ texts p, readProof library texts = .ok p → Proof.LaidOut library.contains p.steps ∧
      (∀ s ∈ p.steps, s.Writable) ∧ readProof library p.toLines = .ok p := by
  refine ⟨fun p h hw => ⟨Proof.readProof_toLines_of_laidOut hl h hw, ?_⟩, fun texts p h => ?_⟩
  · have hplaces := Line.forall₂_steps_placed [] p.lines
    rw [Proof.steps_lines] at hplaces
    exact hplaces
  · have hlaid := (Proof.laidOut_of_readProof h).1
    have hw := Proof.writable_of_readProof h
    have hback := Proof.readProof_toLines_of_laidOut hl hlaid hw
    rw [Proof.relocated_of_readProof h] at hback
    exact ⟨hlaid, hw, hback⟩

/-- Blanks, zeros, parentheses and the depths of separators are not kept, the sources are; and steps that claim to be
from elsewhere are read where they were written. -/
theorem readProof_toLines_respelled : ∃ p q : Proof,
    readProof Library.builtin
      ["|01 p->q V", "||||-", " || 2 ( p & p ) A", "|-", "||003 p -K( 2 )", "|4 (p&p)->p +I(2 -3)"] = .ok p ∧
    p.toLines = ["|1 (p -> q) V", "|-", "||2 (p & p) A", "||-", "||3 p -K(2)", "|4 ((p & p) -> p) +I(2-3)"] ∧
    readProof Library.builtin p.toLines = .ok p ∧
    q.steps.map Step.source = [7, 7] ∧ q.toLines = ["|-", "||1 p A", "||-", "|2 q -I(1, 1)"] ∧
    readProof Library.builtin q.toLines = .ok q.relocated ∧ q.relocated.steps.map Step.source = [1, 3] := by
  let p : Proof := ⟨[⟨0, 0, 1, (Sentence.atom 'p').implies (.atom 'q'), ⟨"V", []⟩⟩,
    ⟨2, 1, 2, .binary .and (.atom 'p') (.atom 'p'), ⟨"A", []⟩⟩, ⟨4, 2, 2, .atom 'p', ⟨"-K", [.line 1]⟩⟩,
    ⟨5, 3, 1, (Sentence.binary .and (.atom 'p') (.atom 'p')).implies (.atom 'p'), ⟨"+I", [.range 1 2]⟩⟩]⟩
  let q : Proof := ⟨[⟨7, 0, 2, .atom 'p', ⟨"A", []⟩⟩, ⟨7, 1, 1, .atom 'q', ⟨"-I", [.line 0, .line 0]⟩⟩]⟩
  have hp : readProof Library.builtin
      ["|01 p->q V", "||||-", " || 2 ( p & p ) A", "|-", "||003 p -K( 2 )", "|4 (p&p)->p +I(2 -3)"] = .ok p := by
    decide +kernel
  have hlaid : Proof.LaidOut Library.builtin.contains q.steps := by
    refine ⟨[], q.steps, rfl, fun s hs => absurd hs List.not_mem_nil, rfl, ⟨rfl, ?_, ?_, ?_⟩, trivial⟩
    all_goals decide
  have hw : ∀ s ∈ q.steps, s.Writable := by
    have hcited : ∀ c ∈ [Citation.line 0, Citation.line 0], c.Writable := by
      simp [Citation.Writable, Reader.numberBound]
    refine List.forall_mem_cons.mpr ⟨?_, List.forall_mem_cons.mpr ⟨?_, fun s hs => absurd hs List.not_mem_nil⟩⟩
    · exact ⟨by decide, by decide, rfl, by simp [Sentence.occurrences], ⟨by simp, fun _ => rfl⟩⟩
    · exact ⟨by decide, by decide, rfl, by simp [Sentence.occurrences], ⟨hcited, by decide⟩⟩
  exact ⟨p, q, hp, by decide +kernel, ((readProof_toLines .builtin).2 _ p hp).2.2, rfl, by decide +kernel,
    ((readProof_toLines .builtin).1 q hlaid hw).1, by decide +kernel⟩

end Deduction
