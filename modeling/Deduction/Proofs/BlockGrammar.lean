import Mathlib.Data.List.Forall2
import Deduction.Rule.Builtin
import Deduction.Proofs.Blocks

/-!
# The block grammar

Which sequences of lines make up a proof: premises at depth one, a separator, and a body in which every assumption
opens a sub-proof and has a separator below it.  The grammar speaks about lines that have been read already; what is
between the texts and the lines is `Proof.ReadAs`.

* `Proof.Body`, `Proof.Grammatical`: the grammar.
* `Proof.readBody_eq_ok_iff`, `Proof.readProof_eq_ok_iff`: the reader accepts the grammar and nothing else.
* `readProof_iff_grammatical`: the same with the sources of the steps and the number of lines.
-/

namespace Deduction

/-- The steps among the lines of a text, in their order. -/
def Line.steps (lines : List Line) : List Step := lines.filterMap Line.step?

@[simp] theorem Line.steps_nil : Line.steps [] = [] := rfl

@[simp] theorem Line.steps_cons_step (s : Step) (lines : List Line) :
    Line.steps (.step s :: lines) = s :: Line.steps lines := rfl

@[simp] theorem Line.steps_cons_separator (depth : Nat) (lines : List Line) :
    Line.steps (.separator depth :: lines) = Line.steps lines := rfl

@[simp] theorem Line.steps_map_step_append (steps : List Step) (lines : List Line) :
    Line.steps (steps.map Line.step ++ lines) = steps ++ Line.steps lines := by
  induction steps with
  | nil => rfl
  | cons s rest ih => rw [List.map_cons, List.cons_append, steps_cons_step, ih, List.cons_append]

namespace Proof

/-- The texts, which are the lines from `source` on of a proof text, are read as `lines`. -/
def ReadAs (source : Nat) (texts : List String) (lines : List Line) : Prop :=
  List.Forall₂ (fun e line => Line.parse e.1 e.2 = .ok line) (texts.zipIdx source) lines

/-- The lines of a body that comes after a step at depth `depth`. -/
inductive Body (isRule : String → Bool) : Nat → List Line → Prop
  | nil {depth : Nat} : Body isRule depth []
  | rule {depth : Nat} {s : Step} {rest : List Line} (hp : s.isPremise = false) (ha : s.isAssumption = false)
      (hrule : isRule s.reason.rule = true) (hd : s.depth ≤ depth) (hrest : Body isRule s.depth rest) :
      Body isRule depth (.step s :: rest)
  | subproof {depth below : Nat} {s : Step} {rest : List Line} (ha : s.isAssumption = true)
      (hd : s.depth = depth + 1) (hrest : Body isRule s.depth rest) :
      Body isRule depth (.step s :: .separator below :: rest)

/-- The lines of a proof: premises, a separator and a body.  The depth before the first step of the body is that of the
last premise, or one if there are no premises. -/
def Grammatical (isRule : String → Bool) (lines : List Line) : Prop :=
  ∃ premises below body, lines = premises.map Line.step ++ .separator below :: body ∧
    (∀ s ∈ premises, s.isPremise = true ∧ s.depth = 1) ∧ Body isRule (lastDepth 1 premises) body

/-! ## Texts and lines -/

section ReadAs

variable {source : Nat} {text : String} {texts : List String} {line : Line} {lines : List Line}

theorem readAs_nil : ReadAs source [] lines ↔ lines = [] := by
  simp [ReadAs]

theorem readAs_cons : ReadAs source (text :: texts) (line :: lines) ↔
    Line.parse text source = .ok line ∧ ReadAs (source + 1) texts lines := by
  simp [ReadAs, List.zipIdx_cons]

theorem readAs_cons_right : ReadAs source texts (line :: lines) ↔
    ∃ text rest, texts = text :: rest ∧ Line.parse text source = .ok line ∧ ReadAs (source + 1) rest lines := by
  cases texts with
  | nil => simp [ReadAs]
  | cons text rest =>
    rw [readAs_cons]
    constructor
    · rintro ⟨h, hrest⟩
      exact ⟨text, rest, rfl, h, hrest⟩
    · rintro ⟨text', rest', heq, h, hrest⟩
      cases heq
      exact ⟨h, hrest⟩

theorem ReadAs.length_eq (h : ReadAs source texts lines) : texts.length = lines.length := by
  rw [← List.Forall₂.length_eq h, List.length_zipIdx]

/-- Lines know where they were read. -/
theorem ReadAs.source_eq (h : ReadAs source texts lines) {i : Nat} {s : Step} (hs : lines[i]? = some (.step s)) :
    s.source = source + i := by
  induction lines generalizing source texts i with
  | nil => cases hs
  | cons line rest ih =>
    obtain ⟨text, texts', rfl, hline, hrest⟩ := readAs_cons_right.mp h
    cases i with
    | zero =>
      have heq : line = .step s := by simpa using hs
      rw [heq] at hline
      exact (Line.step_of_parse hline).1
    | succ i =>
      have := ih hrest (by simpa using hs)
      omega

theorem lineAt_of_parse (h : Line.parse text source = .ok line) : lineAt source text = .ok line := by
  simp [lineAt, h]

end ReadAs

/-! ## Bodies -/

section Body

variable {isRule : String → Bool} {source depth : Nat} {texts : List String} {lines : List Line} {steps : List Step}

/-- The induction is on a bound for the number of texts, since an assumption takes two of them. -/
theorem exists_body_of_readBody (n : Nat) : ∀ {texts : List String}, texts.length ≤ n →
    ∀ {source depth : Nat} {steps : List Step}, readBody isRule source depth texts = .ok steps →
      ∃ lines, ReadAs source texts lines ∧ Body isRule depth lines ∧ steps = Line.steps lines := by
  induction n with
  | zero =>
    intro texts hn source depth steps h
    rw [List.length_eq_zero_iff.mp (Nat.le_zero.mp hn)] at h ⊢
    cases h
    exact ⟨[], readAs_nil.mpr rfl, .nil, rfl⟩
  | succ n ih =>
    intro texts hn source depth steps h
    cases texts with
    | nil =>
      cases h
      exact ⟨[], readAs_nil.mpr rfl, .nil, rfl⟩
    | cons text rest =>
      rw [List.length_cons] at hn
      obtain ⟨s, more, hl, hf, rfl, hrest⟩ := readBody_cons h
      have hline := lineAt_eq_ok hl
      unfold Step.Follows at hf
      by_cases ha : s.isAssumption = true
      · rw [if_pos ha] at hf hrest
        obtain ⟨below, rest', d, rfl, hl', hr⟩ := hrest
        rw [List.length_cons] at hn
        obtain ⟨lines, hread, hbody, rfl⟩ := ih (by omega) hr
        refine ⟨.step s :: .separator d :: lines, ?_, .subproof ha hf hbody, rfl⟩
        exact readAs_cons.mpr ⟨hline, readAs_cons.mpr ⟨lineAt_eq_ok hl', hread⟩⟩
      · rw [if_neg ha] at hf hrest
        obtain ⟨hp, hrule, -, hd⟩ := hf
        obtain ⟨lines, hread, hbody, rfl⟩ := ih (by omega) hrest
        exact ⟨.step s :: lines, readAs_cons.mpr ⟨hline, hread⟩, .rule hp (by simpa using ha) hrule hd hbody, rfl⟩

theorem readBody_of_body (hbody : Body isRule depth lines) (hread : ReadAs source texts lines) :
    readBody isRule source depth texts = .ok (Line.steps lines) := by
  induction hbody generalizing source texts with
  | nil =>
    have hlen := hread.length_eq
    rw [List.length_nil, List.length_eq_zero_iff] at hlen
    subst hlen
    rfl
  | @rule depth s rest hp ha hrule hd _ ih =>
    obtain ⟨text, texts', rfl, hline, hrest⟩ := readAs_cons_right.mp hread
    have hlow : ¬ depth < s.depth := by omega
    simp [readBody, lineAt_of_parse hline, ih hrest, hlow, hp, ha, hrule, bind, Except.bind, pure, Except.pure]
  | @subproof depth below s rest ha hd _ ih =>
    obtain ⟨text, texts', rfl, hline, hrest⟩ := readAs_cons_right.mp hread
    obtain ⟨mark, texts'', rfl, hmark, hrest'⟩ := readAs_cons_right.mp hrest
    have hmore := ih hrest'
    rw [hd] at hmore
    simp [readBody, lineAt_of_parse hline, lineAt_of_parse hmark, hmore, ha, hd, bind, Except.bind, pure, Except.pure]

/-- **A body is read exactly if its lines follow the grammar**, and then as the steps among them. -/
theorem readBody_eq_ok_iff : readBody isRule source depth texts = .ok steps ↔
    ∃ lines, ReadAs source texts lines ∧ Body isRule depth lines ∧ steps = Line.steps lines := by
  constructor
  · exact exists_body_of_readBody texts.length (Nat.le_refl _)
  · rintro ⟨lines, hread, hbody, rfl⟩
    exact readBody_of_body hbody hread

theorem Body.length_eq (h : Body isRule depth lines) : lines.length =
    (Line.steps lines).length + ((Line.steps lines).filter Step.isAssumption).length := by
  induction h with
  | nil => rfl
  | rule hp ha hrule hd _ ih =>
    simp only [Line.steps_cons_step, List.length_cons, List.filter_cons, ha, Bool.false_eq_true, if_false]
    omega
  | subproof ha hd _ ih =>
    simp only [Line.steps_cons_step, Line.steps_cons_separator, List.length_cons, List.filter_cons, ha, if_true]
    omega

end Body

/-! ## Proofs -/

section Premises

variable {source next : Nat} {texts rest : List String} {premises : List Step}

theorem lastDepth_eq_one (h : ∀ s ∈ premises, s.depth = 1) : lastDepth 1 premises = 1 := by
  unfold lastDepth
  cases hlast : premises.getLast? with
  | none => rfl
  | some s => exact h s (List.mem_of_getLast? hlast)

/-- The premises and their separator come in front of whatever the rest is read as. -/
theorem readAs_of_readPremises (h : readPremises source texts = .ok (premises, next, rest)) :
    ∃ below, ∀ lines, ReadAs next rest lines →
      ReadAs source texts (premises.map Line.step ++ .separator below :: lines) := by
  induction texts generalizing source premises with
  | nil => cases h
  | cons text texts ih =>
    rcases readPremises_cons h with ⟨d, hl, rfl, hnext⟩ | ⟨s, more, hl, -, -, rfl, hr⟩
    · cases hnext
      exact ⟨d, fun lines hlines => readAs_cons.mpr ⟨lineAt_eq_ok hl, hlines⟩⟩
    · obtain ⟨below, hbelow⟩ := ih hr
      exact ⟨below, fun lines hlines => readAs_cons.mpr ⟨lineAt_eq_ok hl, hbelow lines hlines⟩⟩

theorem readPremises_of_readAs {below : Nat} {lines : List Line}
    (hp : ∀ s ∈ premises, s.isPremise = true ∧ s.depth = 1)
    (h : ReadAs source texts (premises.map Line.step ++ .separator below :: lines)) :
    ∃ next rest, readPremises source texts = .ok (premises, next, rest) ∧ ReadAs next rest lines := by
  induction premises generalizing source texts with
  | nil =>
    obtain ⟨text, rest, rfl, hline, hrest⟩ := readAs_cons_right.mp h
    refine ⟨source + 1, rest, ?_, hrest⟩
    simp [readPremises, lineAt_of_parse hline, bind, Except.bind, pure, Except.pure]
  | cons s more ih =>
    obtain ⟨text, rest, rfl, hline, hrest⟩ := readAs_cons_right.mp h
    obtain ⟨hs, hd⟩ := hp s (by simp)
    obtain ⟨next, rest', hread, hlines⟩ := ih (fun t ht => hp t (by simp [ht])) hrest
    refine ⟨next, rest', ?_, hlines⟩
    simp [readPremises, lineAt_of_parse hline, hs, hd, hread, bind, Except.bind, pure, Except.pure]

end Premises

variable {library : Library} {texts : List String} {p : Proof}

theorem readProof_eq_ok_iff_parse : readProof library texts = .ok p ↔ Proof.parse library.contains texts = .ok p := by
  unfold readProof
  cases Proof.parse library.contains texts <;> simp [Except.mapError]

/-- **A text is read as a proof exactly if its lines follow the block grammar**, and then as the steps among them. -/
theorem readProof_eq_ok_iff : readProof library texts = .ok p ↔
    ∃ lines, ReadAs 0 texts lines ∧ Grammatical library.contains lines ∧ p.steps = Line.steps lines := by
  rw [readProof_eq_ok_iff_parse]
  constructor
  · intro h
    simp only [Proof.parse, bind_eq_ok_iff, pure, Except.pure, Except.ok.injEq] at h
    obtain ⟨⟨premises, next, rest⟩, hprem, body, hbody, rfl⟩ := h
    have hp := readPremises_ok hprem
    obtain ⟨below, hfront⟩ := readAs_of_readPremises hprem
    obtain ⟨lines, hread, hlines, rfl⟩ := readBody_eq_ok_iff.mp hbody
    refine ⟨premises.map Line.step ++ .separator below :: lines, hfront lines hread, ?_, ?_⟩
    · refine ⟨premises, below, lines, rfl, fun s hs => ⟨(hp s hs).1, (hp s hs).2.1⟩, ?_⟩
      rw [lastDepth_eq_one fun s hs => (hp s hs).2.1]
      exact hlines
    · rw [Line.steps_map_step_append, Line.steps_cons_separator]
  · rintro ⟨lines, hread, ⟨premises, below, body, rfl, hp, hbody⟩, hsteps⟩
    rw [lastDepth_eq_one fun s hs => (hp s hs).2] at hbody
    obtain ⟨next, rest, hprem, hrest⟩ := readPremises_of_readAs hp hread
    rw [Line.steps_map_step_append, Line.steps_cons_separator] at hsteps
    have hp' : p = ⟨premises ++ Line.steps body⟩ := by rw [← hsteps]
    rw [hp']
    simp [Proof.parse, hprem, readBody_of_body hbody hrest, bind, Except.bind, pure, Except.pure]

theorem Grammatical.length_eq {isRule : String → Bool} {lines : List Line} (h : Grammatical isRule lines) :
    lines.length = (Line.steps lines).length + ((Line.steps lines).filter Step.isAssumption).length + 1 := by
  obtain ⟨premises, below, body, rfl, hp, hbody⟩ := h
  have hnone : premises.filter Step.isAssumption = [] := by
    rw [List.filter_eq_nil_iff]
    intro s hs
    simp [premise_not_assumption (hp s hs).1]
  have hlen := hbody.length_eq
  simp only [Line.steps_map_step_append, Line.steps_cons_separator, List.filter_append, hnone, List.length_append,
    List.length_map, List.length_cons, List.nil_append]
  omega

end Proof

/-- **The reader accepts exactly the block grammar.**  A text is read as a proof if and only if each of its lines can be
read and the lines are premises at depth one, a separator and a body of rule steps and assumptions with separators.
The steps of the proof are then the steps among the lines, each with the line it came from, and no other lines are
there than these, one separator for every assumption and one below the premises. -/
theorem readProof_iff_grammatical (library : Library) (texts : List String) (p : Proof) :
    (readProof library texts = .ok p ↔ ∃ lines, Proof.ReadAs 0 texts lines ∧
      Proof.Grammatical library.contains lines ∧ p.steps = Line.steps lines) ∧
    ∀ lines, Proof.ReadAs 0 texts lines → Proof.Grammatical library.contains lines → p.steps = Line.steps lines →
      (∀ (i : Nat) (s : Step), lines[i]? = some (.step s) → s.source = i) ∧
        texts.length = p.steps.length + (p.steps.filter Step.isAssumption).length + 1 := by
  refine ⟨Proof.readProof_eq_ok_iff, fun lines hread hgram hsteps => ⟨fun i s hs => ?_, ?_⟩⟩
  · rw [hread.source_eq hs, Nat.zero_add]
  · rw [hread.length_eq, hsteps]
    exact hgram.length_eq

/-- Two levels are left at once, and the separators have depths of their own. -/
theorem readProof_iff_grammatical_nested : ∃ (p : Proof) (lines : List Line), Proof.ReadAs 0
      ["|1 q V", "||-", "||2 p A", "|-", " ||| 3 (q&q) A", "||||-", "|||4 q R(1)", "|5 q R(1)"] lines ∧
    Proof.Grammatical Library.builtin.contains lines ∧ p.steps = Line.steps lines ∧
    p.steps.map Step.source = [0, 2, 4, 6, 7] ∧
    8 = p.steps.length + (p.steps.filter Step.isAssumption).length + 1 := by
  let q : Sentence := .atom 'q'
  let proof : Proof := ⟨[⟨0, 0, 1, q, ⟨"V", []⟩⟩, ⟨2, 1, 2, .atom 'p', ⟨"A", []⟩⟩,
    ⟨4, 2, 3, .binary .and q q, ⟨"A", []⟩⟩, ⟨6, 3, 3, q, ⟨"R", [.line 0]⟩⟩, ⟨7, 4, 1, q, ⟨"R", [.line 0]⟩⟩]⟩
  have hread : readProof Library.builtin
      ["|1 q V", "||-", "||2 p A", "|-", " ||| 3 (q&q) A", "||||-", "|||4 q R(1)", "|5 q R(1)"] = .ok proof := by
    decide +kernel
  obtain ⟨lines, hlines, hgram, hsteps⟩ := (readProof_iff_grammatical _ _ _).1.mp hread
  exact ⟨proof, lines, hlines, hgram, hsteps, by decide,
    ((readProof_iff_grammatical _ _ _).2 lines hlines hgram hsteps).2⟩

end Deduction
