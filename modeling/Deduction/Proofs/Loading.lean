import Deduction.Proofs.RuleSets
import Deduction.Proofs.Traversal
import Deduction.Proofs.WrittenLines

/-!
# Loading rules

A library is made of well-formed definitions only, and of all of them: the checks made while the patterns are read and
the checks made afterwards together accept exactly the definitions of `Definition.WellFormed`.  The names they admit
are the names that the lines of a proof can cite.

* `Definition.toTemplate_eq_ok_iff`: the accepted definitions and their templates.
* `Definition.appliesTo_of_toTemplate`: the error of a refused definition describes that definition.
* `Line.isRuleName_iff_exists_parse`: the names that the steps of a proof can have.
* `loading_admits_wellFormed`: the libraries that can be loaded, and the first fault of those that cannot.
-/

namespace Deduction

/-! ## Well-formed rules -/

/-- A name for a rule: letters and signs, and not the name of the premises or of the assumptions. -/
structure NamesRule (name : String) : Prop where
  nonempty : name ≠ ""
  chars : ∀ c ∈ name.toList, isAlphabetic c = true ∨ c = '+' ∨ c = '-'
  not_premise : name ≠ "V"
  not_assumption : name ≠ "A"

/-- The level of a premise, which is that of the rule unless the premise has one of its own. -/
def Definition.levelOf (d : Definition) (p : PremiseDefinition) : Level := p.level?.getD d.level

/-- The definition describes a rule that can be used. -/
structure Definition.WellFormed (d : Definition) : Prop where
  name : NamesRule d.name
  arity : d.arity = d.premises.length
  repeats : d.repeatsLast = true → 1 ≤ d.arity
  premises : ∀ p ∈ d.premises, ∃ s, Sentence.parsePattern p.pattern = .ok s
  conclusion : ∃ s, Sentence.parsePattern d.conclusion = .ok s
  object : d.level = .object → ∀ p ∈ d.premises, d.levelOf p = .object
  implications : ∀ p ∈ d.premises, d.levelOf p = .metaLevel →
    ∃ a b : Sentence, Sentence.parsePattern p.pattern = .ok (a.implies b)

/-- The template has the parts that the definition gives it, with the patterns read. -/
structure Definition.Describes (d : Definition) (t : Template) : Prop where
  name : t.name = d.name
  level : t.level = d.level
  premises : List.Forall₂ (fun p q => q.level = d.levelOf p ∧ Sentence.parsePattern p.pattern = .ok q.pattern)
    d.premises t.premises
  conclusion : Sentence.parsePattern d.conclusion = .ok t.conclusion
  repeatsLast : t.repeatsLast = d.repeatsLast

/-- The template can be used: only meta rules take sub-proofs, and those as implications. -/
structure Template.WellFormed (t : Template) : Prop where
  name : NamesRule t.name
  repeats : t.repeatsLast = true → 1 ≤ t.arity
  object : t.level = .object → ∀ p ∈ t.premises, p.level = .object
  implications : ∀ p ∈ t.premises, p.level = .metaLevel → ∃ a b : Sentence, p.pattern = a.implies b

/-- The definition has the fault that the error tells of. -/
def DefinitionError.AppliesTo (d : Definition) : DefinitionError → Prop
  | .invalidName name => name = d.name ∧ isRuleName name = false
  | .reservedName name => name = d.name ∧ (name = "V" ∨ name = "A")
  | .pattern name text mismatch => name = d.name ∧ (text = d.conclusion ∨ ∃ p ∈ d.premises, text = p.pattern) ∧
    ∃ committed, Sentence.parsePattern text = .error ⟨committed, mismatch⟩
  | .arityMismatch name arity premises =>
    name = d.name ∧ arity = d.arity ∧ premises = d.premises.length ∧ arity ≠ premises
  | .notImplication name s => name = d.name ∧ s.isImplication = false ∧
    ∃ p ∈ d.premises, d.levelOf p = .metaLevel ∧ Sentence.parsePattern p.pattern = .ok s
  | .subproofInObjectRule name => name = d.name ∧ d.level = .object ∧ ∃ p ∈ d.premises, d.levelOf p = .metaLevel
  | .paddingWithoutPremises name => name = d.name ∧ d.repeatsLast = true ∧ d.premises = []

theorem Sentence.isImplication_iff {s : Sentence} : s.isImplication = true ↔ ∃ a b : Sentence, s = a.implies b := by
  constructor
  · intro h
    unfold isImplication at h
    split at h
    · exact ⟨_, _, rfl⟩
    · cases h
  · rintro ⟨a, b, rfl⟩
    rfl

/-! ## Names -/

section Names

variable {name : String}

theorem isRuleName_iff_chars : isRuleName name = true ↔
    name ≠ "" ∧ ∀ c ∈ name.toList, isAlphabetic c = true ∨ c = '+' ∨ c = '-' := by
  rw [Line.isRuleName_iff, Ne, String.toList_eq_nil_iff]
  simp only [isRuleChar, Bool.or_eq_true, beq_iff_eq, or_assoc, Ne]

theorem isReservedName_iff : isReservedName name = true ↔ name = "V" ∨ name = "A" := by
  simp [isReservedName, premiseName, assumptionName]

theorem namesRule_iff : NamesRule name ↔ isRuleName name = true ∧ isReservedName name = false := by
  rw [isRuleName_iff_chars, ← Bool.not_eq_true, isReservedName_iff, not_or]
  constructor
  · intro h
    exact ⟨⟨h.nonempty, h.chars⟩, h.not_premise, h.not_assumption⟩
  · rintro ⟨⟨hne, hchars⟩, hpremise, hassumption⟩
    exact ⟨hne, hchars, hpremise, hassumption⟩

end Names

namespace Definition

variable {d : Definition} {t : Template} {e : DefinitionError}

/-! ## The checks of a definition -/

section Checks

variable {p : PremiseDefinition} {q : PremisePattern} {text : String} {s : Sentence}

theorem check_eq_none_iff {c : Prop} [Decidable c] {x : Option DefinitionError} :
    (if c then some e else x) = none ↔ ¬ c ∧ x = none := by
  by_cases h : c
  · simp [h]
  · simp [h]

theorem headFault?_eq_none_iff : d.headFault? = none ↔
    NamesRule d.name ∧ d.arity = d.premises.length ∧ (d.repeatsLast = true → 1 ≤ d.arity) := by
  unfold headFault?
  simp only [check_eq_none_iff, namesRule_iff, Nat.one_le_iff_ne_zero]
  simp [and_assoc]

theorem appliesTo_of_headFault? (h : d.headFault? = some e) : e.AppliesTo d := by
  unfold headFault? at h
  split at h
  case isTrue hname =>
    cases h
    exact ⟨rfl, by simpa using hname⟩
  split at h
  case isTrue hreserved =>
    cases h
    exact ⟨rfl, isReservedName_iff.mp hreserved⟩
  split at h
  case isTrue harity =>
    cases h
    exact ⟨rfl, rfl, rfl, harity⟩
  case isFalse harity =>
    split at h
    case isTrue hpadding =>
      cases h
      rw [Bool.and_eq_true, beq_iff_eq] at hpadding
      have hlength : d.premises.length = 0 := by omega
      exact ⟨rfl, hpadding.1, List.length_eq_zero_iff.mp hlength⟩
    case isFalse => cases h

theorem readPattern_eq_ok_iff : d.readPattern text = .ok s ↔ Sentence.parsePattern text = .ok s := by
  unfold readPattern
  cases Sentence.parsePattern text with
  | ok s' => simp
  | error e => simp

theorem readPattern_eq_error (h : d.readPattern text = .error e) :
    ∃ r : ReadError, Sentence.parsePattern text = .error r ∧ e = .pattern d.name text r.mismatch := by
  unfold readPattern at h
  cases hr : Sentence.parsePattern text with
  | ok s =>
    rw [hr] at h
    cases h
  | error r =>
    rw [hr] at h
    cases h
    exact ⟨r, rfl, rfl⟩

theorem appliesTo_of_readPattern (htext : text = d.conclusion ∨ ∃ p ∈ d.premises, text = p.pattern)
    (h : d.readPattern text = .error e) : e.AppliesTo d := by
  obtain ⟨r, hr, rfl⟩ := readPattern_eq_error h
  exact ⟨rfl, htext, r.committed, hr⟩

theorem readPremise_eq_ok_iff : d.readPremise p = .ok q ↔
    q.level = d.levelOf p ∧ Sentence.parsePattern p.pattern = .ok q.pattern := by
  obtain ⟨level, pattern⟩ := q
  unfold readPremise
  simp only [Proof.bind_eq_ok_iff, readPattern_eq_ok_iff, pure, Except.pure, Except.ok.injEq, PremisePattern.mk.injEq]
  constructor
  · rintro ⟨s, hs, rfl, rfl⟩
    exact ⟨rfl, hs⟩
  · rintro ⟨hlevel, hs⟩
    exact ⟨pattern, hs, hlevel.symm, rfl⟩

theorem readPremise_eq_error (h : d.readPremise p = .error e) : d.readPattern p.pattern = .error e := by
  unfold readPremise at h
  cases hr : d.readPattern p.pattern with
  | ok s =>
    rw [hr] at h
    cases h
  | error e' =>
    rw [hr] at h
    cases h
    rfl

theorem premiseFault?_eq_none_iff : d.premiseFault? q = none ↔
    (d.level = .object → q.level = .object) ∧ (q.level = .metaLevel → ∃ a b : Sentence, q.pattern = a.implies b) := by
  unfold premiseFault?
  rw [← Sentence.isImplication_iff]
  cases d.level <;> cases q.level <;> simp

theorem premiseFault?_eq_some (h : d.premiseFault? q = some e) : q.level = .metaLevel ∧
    ((d.level = .object ∧ e = .subproofInObjectRule d.name) ∨
      (q.pattern.isImplication = false ∧ e = .notImplication d.name q.pattern)) := by
  unfold premiseFault? at h
  split at h
  case h_1 hd hq =>
    cases h
    exact ⟨hq, Or.inl ⟨hd, rfl⟩⟩
  case h_2 hd hq =>
    split at h
    case isTrue => cases h
    case isFalse hpattern =>
      cases h
      exact ⟨hq, Or.inr ⟨by simpa using hpattern, rfl⟩⟩
  case h_3 => cases h

end Checks

/-! ## Accepted definitions -/

/-- The stages of a reading that succeeds: what is wrong with the premises is seen only after all patterns are read. -/
theorem toTemplate_eq_ok_iff_stages : d.toTemplate = .ok t ↔ d.headFault? = none ∧ ∃ premises conclusion,
    d.premises.mapM d.readPremise = .ok premises ∧ d.readPattern d.conclusion = .ok conclusion ∧
      premises.findSome? d.premiseFault? = none ∧ t = ⟨d.name, d.level, premises, conclusion, d.repeatsLast⟩ := by
  unfold toTemplate
  cases d.headFault? with
  | some fault => simp [throw, throwThe, MonadExceptOf.throw, bind, Except.bind]
  | none =>
    simp only [Proof.bind_eq_ok_iff, true_and]
    apply exists_congr
    intro premises
    cases premises.findSome? d.premiseFault? with
    | some fault => simp [throw, throwThe, MonadExceptOf.throw, bind, Except.bind]
    | none => simp [pure, Except.pure, eq_comm]

/-- The stages at which a reading can fail. -/
theorem stage_of_toTemplate_eq_error (h : d.toTemplate = .error e) : d.headFault? = some e ∨
    d.premises.mapM d.readPremise = .error e ∨ d.readPattern d.conclusion = .error e ∨
      ∃ premises, d.premises.mapM d.readPremise = .ok premises ∧ premises.findSome? d.premiseFault? = some e := by
  unfold toTemplate at h
  cases hhead : d.headFault? with
  | some fault =>
    rw [hhead] at h
    cases h
    exact Or.inl rfl
  | none =>
    rw [hhead] at h
    cases hpremises : d.premises.mapM d.readPremise with
    | error e' =>
      rw [hpremises] at h
      cases h
      exact Or.inr (Or.inl rfl)
    | ok premises =>
      rw [hpremises] at h
      cases hconclusion : d.readPattern d.conclusion with
      | error e' =>
        rw [hconclusion] at h
        cases h
        exact Or.inr (Or.inr (Or.inl rfl))
      | ok conclusion =>
        rw [hconclusion] at h
        cases hfault : premises.findSome? d.premiseFault? with
        | none => simp [hfault, bind, Except.bind, pure, Except.pure] at h
        | some fault =>
          simp only [hfault, bind, Except.bind, throw, throwThe, MonadExceptOf.throw] at h
          cases h
          exact Or.inr (Or.inr (Or.inr ⟨premises, rfl, hfault⟩))

theorem readPremises_eq_ok_iff {premises : List PremisePattern} : d.premises.mapM d.readPremise = .ok premises ↔
    List.Forall₂ (fun p q => q.level = d.levelOf p ∧ Sentence.parsePattern p.pattern = .ok q.pattern)
      d.premises premises := by
  simp only [mapM_eq_ok_iff, readPremise_eq_ok_iff]

theorem WellFormed.exists_describes (h : d.WellFormed) : ∃ t, d.Describes t := by
  have hread : ∀ p ∈ d.premises, ∃ q, d.readPremise p = .ok q := by
    intro p hp
    obtain ⟨s, hs⟩ := h.premises p hp
    exact ⟨⟨d.levelOf p, s⟩, readPremise_eq_ok_iff.mpr ⟨rfl, hs⟩⟩
  obtain ⟨premises, hpremises⟩ := exists_mapM_eq_ok_iff.mpr hread
  obtain ⟨conclusion, hconclusion⟩ := h.conclusion
  exact ⟨⟨d.name, d.level, premises, conclusion, d.repeatsLast⟩, rfl, rfl, readPremises_eq_ok_iff.mp hpremises,
    hconclusion, rfl⟩

/-- **The template of a well-formed definition is well-formed.** -/
theorem WellFormed.template (h : d.WellFormed) (ht : d.Describes t) : t.WellFormed := by
  have harity : t.arity = d.arity := ht.premises.length_eq.symm.trans h.arity.symm
  constructor
  · rw [ht.name]
    exact h.name
  · intro hrepeats
    rw [harity]
    exact h.repeats (ht.repeatsLast ▸ hrepeats)
  · intro hlevel q hq
    obtain ⟨p, hp, hq, -⟩ := exists_of_forall₂_of_mem ht.premises hq
    rw [hq]
    exact h.object (ht.level ▸ hlevel) p hp
  · intro q hq hlevel
    obtain ⟨p, hp, hq, hpattern⟩ := exists_of_forall₂_of_mem ht.premises hq
    obtain ⟨a, b, hab⟩ := h.implications p hp (hq ▸ hlevel)
    rw [hpattern] at hab
    exact ⟨a, b, Except.ok.inj hab⟩

/-- **Exactly the well-formed definitions are accepted, each as the template that it describes.** -/
theorem toTemplate_eq_ok_iff : d.toTemplate = .ok t ↔ d.WellFormed ∧ d.Describes t := by
  simp only [toTemplate_eq_ok_iff_stages, headFault?_eq_none_iff, readPremises_eq_ok_iff, readPattern_eq_ok_iff,
    List.findSome?_eq_none_iff, premiseFault?_eq_none_iff]
  constructor
  · rintro ⟨⟨hname, harity, hrepeats⟩, premises, conclusion, hpremises, hconclusion, hfaults, rfl⟩
    refine ⟨⟨hname, harity, hrepeats, ?_, ⟨conclusion, hconclusion⟩, ?_, ?_⟩, rfl, rfl, hpremises, hconclusion, rfl⟩
    · intro p hp
      obtain ⟨q, -, -, hpattern⟩ := exists_of_forall₂_of_mem hpremises.flip hp
      exact ⟨q.pattern, hpattern⟩
    · intro hlevel p hp
      obtain ⟨q, hq, hqp, -⟩ := exists_of_forall₂_of_mem hpremises.flip hp
      rw [← hqp]
      exact (hfaults q hq).1 hlevel
    · intro p hp hlevel
      obtain ⟨q, hq, hqp, hpattern⟩ := exists_of_forall₂_of_mem hpremises.flip hp
      obtain ⟨a, b, hab⟩ := (hfaults q hq).2 (hqp.trans hlevel)
      exact ⟨a, b, hab ▸ hpattern⟩
  · rintro ⟨h, ht⟩
    have hw : t.WellFormed := h.template ht
    refine ⟨⟨h.name, h.arity, h.repeats⟩, t.premises, t.conclusion, ht.premises, ht.conclusion, ?_, ?_⟩
    · intro q hq
      exact ⟨fun hlevel => hw.object (ht.level.trans hlevel) q hq, hw.implications q hq⟩
    · rw [← ht.name, ← ht.level, ← ht.repeatsLast]

theorem exists_toTemplate_iff : (∃ t, d.toTemplate = .ok t) ↔ d.WellFormed := by
  simp only [toTemplate_eq_ok_iff]
  constructor
  · rintro ⟨t, h, -⟩
    exact h
  · intro h
    obtain ⟨t, ht⟩ := h.exists_describes
    exact ⟨t, h, ht⟩

theorem isRuleName_of_toTemplate (h : d.toTemplate = .ok t) : isRuleName t.name = true := by
  obtain ⟨hd, ht⟩ := toTemplate_eq_ok_iff.mp h
  exact (namesRule_iff.mp (hd.template ht).name).1

/-! ## Refused definitions -/

/-- **The error of a refused definition describes that definition.** -/
theorem appliesTo_of_toTemplate (h : d.toTemplate = .error e) : e.AppliesTo d := by
  rcases stage_of_toTemplate_eq_error h with hhead | hpremises | hconclusion | ⟨premises, hpremises, hfault⟩
  · exact appliesTo_of_headFault? hhead
  · obtain ⟨front, p, back, hsplit, -, hp⟩ := mapM_eq_error_iff.mp hpremises
    have hmem : p ∈ d.premises := by simp [hsplit]
    exact appliesTo_of_readPattern (Or.inr ⟨p, hmem, rfl⟩) (readPremise_eq_error hp)
  · exact appliesTo_of_readPattern (Or.inl rfl) hconclusion
  · obtain ⟨q, hq, hfault⟩ := List.exists_of_findSome?_eq_some hfault
    obtain ⟨p, hp, hlevel, hpattern⟩ := exists_of_forall₂_of_mem (readPremises_eq_ok_iff.mp hpremises) hq
    obtain ⟨hmeta, ⟨hobject, rfl⟩ | ⟨himplication, rfl⟩⟩ := premiseFault?_eq_some hfault
    · exact ⟨rfl, hobject, p, hp, hlevel ▸ hmeta⟩
    · exact ⟨rfl, himplication, p, hp, hlevel ▸ hmeta, hpattern⟩

theorem not_wellFormed_of_toTemplate (h : d.toTemplate = .error e) : ¬ d.WellFormed := by
  intro hd
  obtain ⟨t, ht⟩ := exists_toTemplate_iff.mpr hd
  rw [h] at ht
  cases ht

end Definition

/-! ## Names in lines -/

namespace Line

/-- Every justification that can be written stands on some line. -/
theorem exists_parse_of_writable {j : Justification} (hname : isRuleName j.rule = true) (hj : j.Writable)
    (source : Nat) : ∃ text step, Line.parse text source = .ok (.step step) ∧ step.reason = j := by
  have hs : (⟨0, 0, 1, .atom 'p', j⟩ : Step).Writable := by
    refine ⟨Nat.le_refl 1, ?_, rfl, ?_, hj⟩
    · show 0 + 1 < Reader.numberBound
      decide
    · show ∀ c ∈ ['p'], c.isLower = true
      exact List.forall_mem_singleton.mpr rfl
  exact ⟨_, _, parse_text_step hs hname source, rfl⟩

/-- **The names of rules are the names that the steps of a proof can have.** -/
theorem isRuleName_iff_exists_parse {name : String} : isRuleName name = true ↔
    ∃ text source step, Line.parse text source = .ok (.step step) ∧ step.reason.rule = name := by
  constructor
  · intro hname
    have hj : (⟨name, []⟩ : Justification).Writable := ⟨fun c hc => absurd hc List.not_mem_nil, fun _ => rfl⟩
    obtain ⟨text, step, hparse, hreason⟩ := exists_parse_of_writable (j := ⟨name, []⟩) hname hj 0
    exact ⟨text, 0, step, hparse, by rw [hreason]⟩
  · rintro ⟨text, source, step, hparse, rfl⟩
    exact (writable_of_parse hparse).2

/-- A step may cite a rule with any citations that can be written. -/
theorem exists_parse_citing {name : String} (hname : NamesRule name) {citations : List Citation}
    (hcitations : ∀ c ∈ citations, c.Writable) (source : Nat) :
    ∃ text step, Line.parse text source = .ok (.step step) ∧ step.reason = ⟨name, citations⟩ := by
  obtain ⟨hrule, hfree⟩ := namesRule_iff.mp hname
  refine exists_parse_of_writable (j := ⟨name, citations⟩) hrule ⟨hcitations, ?_⟩ source
  intro hreserved
  rw [← Bool.or_eq_true] at hreserved
  exact absurd (hfree.symm.trans hreserved) Bool.false_ne_true

end Line

/-! ## Libraries -/

namespace Library

variable {definitions : List Definition} {l : Library} {e : DefinitionError}

theorem ofDefinitions_eq_ok_iff : ofDefinitions definitions = .ok l ↔
    ∃ ts, definitions.mapM Definition.toTemplate = .ok ts ∧ l = ofTemplates ts := by
  unfold ofDefinitions
  rw [Proof.bind_eq_ok_iff]
  simp only [pure, Except.pure, Except.ok.injEq, eq_comm (a := l)]

theorem ofDefinitions_eq_error_iff : ofDefinitions definitions = .error e ↔
    definitions.mapM Definition.toTemplate = .error e := by
  unfold ofDefinitions
  cases definitions.mapM Definition.toTemplate with
  | error e' => simp [bind, Except.bind]
  | ok ts => simp [bind, Except.bind, pure, Except.pure]

/-- **A library can be made of definitions if and only if all of them are well-formed.** -/
theorem exists_ofDefinitions_iff : (∃ l, ofDefinitions definitions = .ok l) ↔ ∀ d ∈ definitions, d.WellFormed := by
  simp only [ofDefinitions_eq_ok_iff, ← Definition.exists_toTemplate_iff, ← exists_mapM_eq_ok_iff]
  constructor
  · rintro ⟨l, ts, hts, -⟩
    exact ⟨ts, hts⟩
  · rintro ⟨ts, hts⟩
    exact ⟨ofTemplates ts, ts, hts, rfl⟩

/-- The templates of a library are those that its definitions describe, in their order. -/
theorem exists_describes_of_ofDefinitions (h : ofDefinitions definitions = .ok l) :
    ∃ ts, List.Forall₂ Definition.Describes definitions ts ∧ l = ofTemplates ts := by
  obtain ⟨ts, hts, hl⟩ := ofDefinitions_eq_ok_iff.mp h
  exact ⟨ts, (mapM_eq_ok_iff.mp hts).imp fun d t hd => (Definition.toTemplate_eq_ok_iff.mp hd).2, hl⟩

/-- **If no library can be made, the error is that of the first definition that is not well-formed.** -/
theorem ofDefinitions_eq_error_iff_first : ofDefinitions definitions = .error e ↔ ∃ front d back,
    definitions = front ++ d :: back ∧ (∀ d' ∈ front, d'.WellFormed) ∧ ¬ d.WellFormed ∧
      d.toTemplate = .error e ∧ e.AppliesTo d := by
  rw [ofDefinitions_eq_error_iff, mapM_eq_error_iff]
  simp only [Definition.exists_toTemplate_iff]
  constructor
  · rintro ⟨front, d, back, hsplit, hfront, hd⟩
    exact ⟨front, d, back, hsplit, hfront, Definition.not_wellFormed_of_toTemplate hd, hd,
      Definition.appliesTo_of_toTemplate hd⟩
  · rintro ⟨front, d, back, hsplit, hfront, -, hd, -⟩
    exact ⟨front, d, back, hsplit, hfront, hd⟩

/-- What comes of loading the definitions. -/
structure Loads (definitions : List Definition) : Prop where
  /-- A library can be made of well-formed definitions, and of no others. -/
  succeeds_iff : (∃ l, ofDefinitions definitions = .ok l) ↔ ∀ d ∈ definitions, d.WellFormed
  /-- The library has the templates that the definitions describe, in their order. -/
  described : ∀ l, ofDefinitions definitions = .ok l →
    ∃ ts, List.Forall₂ Definition.Describes definitions ts ∧ l = ofTemplates ts
  /-- Every template of the library can be used, and a definition describes it. -/
  wellFormed : ∀ l, ofDefinitions definitions = .ok l →
    ∀ t ∈ l.templates, t.WellFormed ∧ ∃ d ∈ definitions, d.Describes t
  /-- Every template is found under its name. -/
  found : ∀ l, ofDefinitions definitions = .ok l → ∀ t ∈ l.templates, t ∈ l.get t.name ∧ l.contains t.name = true
  /-- A step can cite every rule of the library, with any citations that can be written. -/
  cited : ∀ l, ofDefinitions definitions = .ok l → ∀ t ∈ l.templates, ∀ citations : List Citation,
    (∀ c ∈ citations, c.Writable) → ∀ source, ∃ text step,
      Line.parse text source = .ok (.step step) ∧ step.reason = ⟨t.name, citations⟩
  /-- If no library can be made, the error is that of the first definition that is not well-formed. -/
  fails_iff : ∀ e, ofDefinitions definitions = .error e ↔ ∃ front d back,
    definitions = front ++ d :: back ∧ (∀ d' ∈ front, d'.WellFormed) ∧ ¬ d.WellFormed ∧
      d.toTemplate = .error e ∧ e.AppliesTo d
  /-- A rule file is loaded as its definitions are. -/
  file : ∀ text, definitionsOfToml? text = some definitions →
    Library.parse text = (ofDefinitions definitions).mapError .definition

end Library

/-- **Loading admits exactly the well-formed rules, and every rule that was loaded can be cited.**  Lists of definitions
are accepted and refused as `Library.Loads` says.  The names that rules may have are the names that the steps of a proof
can have. -/
theorem loading_admits_wellFormed :
    (∀ definitions, Library.Loads definitions) ∧
    ∀ name, isRuleName name = true ↔
      ∃ text source step, Line.parse text source = .ok (.step step) ∧ step.reason.rule = name := by
  refine ⟨fun definitions => ?_, fun _ => Line.isRuleName_iff_exists_parse⟩
  have hwellFormed : ∀ l, Library.ofDefinitions definitions = .ok l →
      ∀ t ∈ l.templates, t.WellFormed ∧ ∃ d ∈ definitions, d.Describes t := by
    intro l hload t ht
    have hwell : ∀ d ∈ definitions, d.WellFormed := Library.exists_ofDefinitions_iff.mp ⟨l, hload⟩
    obtain ⟨ts, hts, rfl⟩ := Library.exists_describes_of_ofDefinitions hload
    rw [Library.mem_templates_ofTemplates] at ht
    obtain ⟨d, hd, hdescribes⟩ := exists_of_forall₂_of_mem hts ht
    exact ⟨(hwell d hd).template hdescribes, d, hd, hdescribes⟩
  exact {
    succeeds_iff := Library.exists_ofDefinitions_iff
    described := fun l hload => Library.exists_describes_of_ofDefinitions hload
    wellFormed := hwellFormed
    found := fun l hload t ht => by
      obtain ⟨ts, -, rfl⟩ := Library.exists_describes_of_ofDefinitions hload
      rw [Library.mem_templates_ofTemplates] at ht
      rw [Library.mem_get_ofTemplates, Library.contains_iff_mem_names, Library.mem_names_ofTemplates]
      exact ⟨⟨ht, rfl⟩, t, ht, rfl⟩
    cited := fun l hload t ht citations hcitations source =>
      Line.exists_parse_citing (hwellFormed l hload t ht).1.name hcitations source
    fails_iff := fun e => Library.ofDefinitions_eq_error_iff_first
    file := fun text h => by simp only [Library.parse, h] }

/-- A proof by cases is loaded, with the level of the rule for its second premise, and can be cited.  A sub-proof that
is no implication is refused, although the definition after it has no valid name. -/
theorem loading_admits_wellFormed_cases :
    (∃ l, Library.ofDefinitions
        [⟨"-Ä", .metaLevel, 2, [⟨some .object, "(A | B)"⟩, ⟨none, "(A -> C)"⟩], "C", true⟩] = .ok l ∧
      ∃ t ∈ l.templates, t.WellFormed ∧ t.premises.map PremisePattern.level = [.object, .metaLevel] ∧
        ∃ text step, Line.parse text 7 = .ok (.step step) ∧ step.reason = ⟨"-Ä", [.line 0, .range 1 2]⟩) ∧
    Library.ofDefinitions
        [⟨"-Ä", .metaLevel, 2, [⟨some .object, "(A | B)"⟩, ⟨none, "(A -> C)"⟩], "C", true⟩,
          ⟨"RAA", .metaLevel, 1, [⟨none, "(A & B)"⟩], "A", false⟩, ⟨"E1", .object, 0, [], "A", false⟩] =
      .error (.notImplication "RAA" (.binary .and (.var 'A') (.var 'B'))) ∧
    Library.parse "[[rule]]\nname='T'\nkind='object'\narity=0\nconclusion='(A -> A)'" =
      (Library.ofDefinitions [⟨"T", .object, 0, [], "(A -> A)", false⟩]).mapError .definition := by
  let good : Definition := ⟨"-Ä", .metaLevel, 2, [⟨some .object, "(A | B)"⟩, ⟨none, "(A -> C)"⟩], "C", true⟩
  let bad : Definition := ⟨"RAA", .metaLevel, 1, [⟨none, "(A & B)"⟩], "A", false⟩
  let t : Template := ⟨"-Ä", .metaLevel,
    [⟨.object, .binary .or (.var 'A') (.var 'B')⟩, ⟨.metaLevel, (Sentence.var 'A').implies (.var 'C')⟩], .var 'C', true⟩
  have hgood : good.toTemplate = .ok t := by decide +kernel
  have hbad : bad.toTemplate = .error (.notImplication "RAA" (.binary .and (.var 'A') (.var 'B'))) := by decide +kernel
  have hfile : definitionsOfToml? "[[rule]]\nname='T'\nkind='object'\narity=0\nconclusion='(A -> A)'" =
      some [⟨"T", .object, 0, [], "(A -> A)", false⟩] := by decide +kernel
  have hwell : ∀ d ∈ [good], d.WellFormed :=
    List.forall_mem_singleton.mpr (Definition.toTemplate_eq_ok_iff.mp hgood).1
  have hl : Library.ofDefinitions [good] = .ok (.ofTemplates [t]) :=
    Library.ofDefinitions_eq_ok_iff.mpr ⟨[t], mapM_eq_ok_iff.mpr (.cons hgood .nil), rfl⟩
  have ht : t ∈ (Library.ofTemplates [t]).templates := Library.mem_templates_ofTemplates.mpr List.mem_cons_self
  have hloads := loading_admits_wellFormed.1
  refine ⟨?_, ((hloads _).fails_iff _).mpr ⟨[good], bad, _, rfl, hwell, Definition.not_wellFormed_of_toTemplate hbad,
    hbad, Definition.appliesTo_of_toTemplate hbad⟩, (hloads _).file _ hfile⟩
  have hcitations : ∀ c ∈ [Citation.line 0, .range 1 2], c.Writable := by
    simp [Citation.Writable, Reader.numberBound]
  exact ⟨_, hl, t, ht, ((hloads _).wellFormed _ hl t ht).1, rfl, (hloads _).cited _ hl t ht _ hcitations 7⟩

end Deduction
