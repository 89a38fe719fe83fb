import Mathlib.Data.List.Induction
import Deduction.Rule.File
import Deduction.Proofs.BlockGrammar
import Deduction.Proofs.Matching
import Deduction.Proofs.Passes
import Deduction.Proofs.Traversal

/-!
# Libraries as sets of templates

The order in which templates were added to a library, their grouping and their repetitions decide which template is
tried first, and nothing else.  A step is justified if one of the templates of its rule applies; if none does, the
error only tells whether one of them takes the number of premises.

* `Library.Built.mem_get`, `Library.Built.contains_iff`: look-ups in terms of the set of templates.
* `Library.firstFit_eq_error`: the error of a rule none of whose templates applies.
* `verify_grows_with_templates`: more templates accept more proofs, and the same templates give the same result.
-/

namespace Deduction

namespace Library

/-- A library that started empty or was read from a rule file, and to which templates have been added. -/
inductive Built : Library → Prop
  | empty : Built empty
  | file {text : String} {l : Library} (h : Library.parse text = .ok l) : Built l
  | add {l : Library} (t : Template) (hl : Built l) : Built (l.add t)

/-! ## Loading -/

section Loading

theorem addAll_concat (l : Library) (ts : List Template) (t : Template) :
    l.addAll (ts ++ [t]) = (l.addAll ts).add t := by
  simp [addAll, List.foldl_append]

/-- A rule file yields the templates of its definitions, one after the other. -/
theorem parse_eq_ok_iff {text : String} {l : Library} : Library.parse text = .ok l ↔ ∃ definitions ts,
    definitionsOfToml? text = some definitions ∧ definitions.mapM Definition.toTemplate = .ok ts ∧
      l = ofTemplates ts := by
  unfold Library.parse
  cases definitionsOfToml? text with
  | none => simp
  | some definitions =>
    cases hts : definitions.mapM Definition.toTemplate with
    | error e => simp [ofDefinitions, hts, bind, Except.bind, Except.mapError]
    | ok ts => simp [ofDefinitions, hts, bind, Except.bind, pure, Except.pure, Except.mapError, eq_comm]

theorem ofTemplates_of_parse {text : String} {l : Library} (h : Library.parse text = .ok l) :
    ∃ ts, l = ofTemplates ts ∧ ∀ t ∈ ts, ∃ d : Definition, d.toTemplate = .ok t := by
  obtain ⟨definitions, ts, -, hts, hl⟩ := parse_eq_ok_iff.mp h
  refine ⟨ts, hl, fun t ht => ?_⟩
  obtain ⟨d, -, hd⟩ := exists_of_forall₂_of_mem (mapM_eq_ok_iff.mp hts) ht
  exact ⟨d, hd⟩

theorem ofTemplates_concat (ts : List Template) (t : Template) : ofTemplates (ts ++ [t]) = (ofTemplates ts).add t :=
  addAll_concat empty ts t

theorem Built.exists_ofTemplates {l : Library} (h : l.Built) : ∃ ts, l = ofTemplates ts := by
  induction h with
  | empty => exact ⟨[], rfl⟩
  | file hfile =>
    obtain ⟨ts, hts, -⟩ := ofTemplates_of_parse hfile
    exact ⟨ts, hts⟩
  | add t _ ih =>
    obtain ⟨ts, rfl⟩ := ih
    exact ⟨ts ++ [t], (ofTemplates_concat ts t).symm⟩

theorem built_ofTemplates (ts : List Template) : (ofTemplates ts).Built := by
  induction ts using List.reverseRecOn with
  | nil => exact .empty
  | append_singleton ts t ih =>
    rw [ofTemplates_concat]
    exact ih.add t

end Loading

/-! ## The templates of a library -/

section Templates

variable {l : Library} {name : String} {t : Template}

theorem contains_iff_mem_names : l.contains name = true ↔ name ∈ l.names := by
  simp [contains, names]

theorem mem_names_add : name ∈ (l.add t).names ↔ name ∈ l.names ∨ t.name = name := by
  have key : ∀ groups : List (String × List Template),
      name ∈ (addTo t groups).map Prod.fst ↔ name ∈ groups.map Prod.fst ∨ t.name = name := by
    intro groups
    induction groups with
    | nil => simp [addTo, eq_comm]
    | cons g rest ih =>
      obtain ⟨n, ts⟩ := g
      unfold addTo
      by_cases hn : n = t.name
      · rw [if_pos hn]
        simp only [List.map_cons, List.mem_cons, hn]
        constructor
        · exact Or.inl
        · rintro (h | rfl)
          · exact h
          · exact Or.inl rfl
      · rw [if_neg hn]
        simp only [List.map_cons, List.mem_cons, ih, or_assoc]
  exact key l.groups

theorem mem_names_ofTemplates {ts : List Template} : name ∈ (ofTemplates ts).names ↔ ∃ t ∈ ts, t.name = name := by
  induction ts using List.reverseRecOn with
  | nil => simp [ofTemplates, addAll, empty, names]
  | append_singleton ts t ih =>
    rw [ofTemplates_concat, mem_names_add, ih]
    constructor
    · rintro (⟨u, hu, hname⟩ | hname)
      · exact ⟨u, List.mem_append_left _ hu, hname⟩
      · exact ⟨t, by simp, hname⟩
    · rintro ⟨u, hu, hname⟩
      rcases List.mem_append.mp hu with hu | hu
      · exact Or.inl ⟨u, hu, hname⟩
      · exact Or.inr (List.mem_singleton.mp hu ▸ hname)

theorem mem_templates_ofTemplates {ts : List Template} : t ∈ (ofTemplates ts).templates ↔ t ∈ ts := by
  constructor
  · intro h
    obtain ⟨name, -, hget⟩ := List.mem_flatMap.mp h
    exact (mem_get_ofTemplates.mp hget).1
  · intro h
    exact mem_templates_of_mem_get (mem_get_ofTemplates.mpr ⟨h, rfl⟩)

theorem Built.mem_get (h : l.Built) : t ∈ l.get name ↔ t ∈ l.templates ∧ t.name = name := by
  obtain ⟨ts, rfl⟩ := h.exists_ofTemplates
  rw [mem_get_ofTemplates, mem_templates_ofTemplates]

theorem Built.contains_iff (h : l.Built) : l.contains name = true ↔ ∃ t ∈ l.templates, t.name = name := by
  obtain ⟨ts, rfl⟩ := h.exists_ofTemplates
  simp only [contains_iff_mem_names, mem_names_ofTemplates, mem_templates_ofTemplates]

variable {l₁ l₂ : Library}

theorem Built.get_mono (h₁ : l₁.Built) (h₂ : l₂.Built) (hsub : ∀ t ∈ l₁.templates, t ∈ l₂.templates) (name : String) :
    ∀ t ∈ l₁.get name, t ∈ l₂.get name := by
  intro t ht
  obtain ⟨ht, hname⟩ := h₁.mem_get.mp ht
  exact h₂.mem_get.mpr ⟨hsub t ht, hname⟩

theorem Built.contains_mono (h₁ : l₁.Built) (h₂ : l₂.Built) (hsub : ∀ t ∈ l₁.templates, t ∈ l₂.templates)
    (name : String) (hname : l₁.contains name = true) : l₂.contains name = true := by
  obtain ⟨t, ht, hname⟩ := h₁.contains_iff.mp hname
  exact h₂.contains_iff.mpr ⟨t, hsub t ht, hname⟩

end Templates

/-! ## Applying a rule -/

section Apply

variable {premises : List Premise} {conclusion : Sentence}

/-- If no template applies, the error tells whether one of them takes the number of premises. -/
theorem firstFit_eq_error {ts : List Template} (otherwise : MatchError)
    (h : ¬ ∃ t ∈ ts, ∃ σ, t.apply premises conclusion = .ok σ) :
    firstFit premises conclusion ts otherwise =
      .error (if ts.any (fun t => (t.padded? premises).isSome) then .doesNotFit else otherwise) := by
  induction ts generalizing otherwise with
  | nil => rfl
  | cons t rest ih =>
    have hrest : ¬ ∃ u ∈ rest, ∃ σ, u.apply premises conclusion = .ok σ := by
      rintro ⟨u, hu, hσ⟩
      exact h ⟨u, List.mem_cons_of_mem _ hu, hσ⟩
    cases hp : t.padded? premises with
    | none =>
      have happ : t.apply premises conclusion = .error .wrongPremiseCount := by simp [Template.apply, hp]
      simp [firstFit, happ, ih otherwise hrest, hp]
    | some padded =>
      have happ : t.apply premises conclusion = .error .doesNotFit := by
        cases hu : t.unify? padded conclusion with
        | none => simp [Template.apply, hp, hu]
        | some σ => exact absurd ⟨t, by simp, σ, Template.apply_eq_ok_iff.mpr ⟨padded, hp, hu⟩⟩ h
      simp [firstFit, happ, ih .doesNotFit hrest, hp]

/-- Rules with the same templates justify the same steps and refuse the others with the same error. -/
theorem apply_congr {l₁ l₂ : Library} {name : String} (premises : List Premise) (conclusion : Sentence)
    (h : ∀ t, t ∈ l₁.get name ↔ t ∈ l₂.get name) :
    (∃ σ₁ σ₂, l₁.apply name premises conclusion = .ok σ₁ ∧ l₂.apply name premises conclusion = .ok σ₂) ∨
      ∃ e, l₁.apply name premises conclusion = .error e ∧ l₂.apply name premises conclusion = .error e := by
  by_cases happ : ∃ t ∈ l₁.get name, ∃ σ, t.apply premises conclusion = .ok σ
  · have happ' : ∃ t ∈ l₂.get name, ∃ σ, t.apply premises conclusion = .ok σ := by
      obtain ⟨t, ht, hσ⟩ := happ
      exact ⟨t, (h t).mp ht, hσ⟩
    obtain ⟨σ₁, hσ₁⟩ := apply_isOk_iff.mpr happ
    obtain ⟨σ₂, hσ₂⟩ := apply_isOk_iff.mpr happ'
    exact Or.inl ⟨σ₁, σ₂, hσ₁, hσ₂⟩
  · have happ' : ¬ ∃ t ∈ l₂.get name, ∃ σ, t.apply premises conclusion = .ok σ := by
      rintro ⟨t, ht, hσ⟩
      exact happ ⟨t, (h t).mpr ht, hσ⟩
    have hany : (l₁.get name).any (fun t => (t.padded? premises).isSome) =
        (l₂.get name).any (fun t => (t.padded? premises).isSome) := by
      rw [Bool.eq_iff_iff]
      simp only [List.any_eq_true, h]
    refine Or.inr ⟨_, firstFit_eq_error _ happ, ?_⟩
    rw [hany]
    exact firstFit_eq_error _ happ'

end Apply

end Library

/-! ## Reading and checking with another library -/

namespace Proof

theorem Body.mono {isRule isRule' : String → Bool} (h : ∀ name, isRule name = true → isRule' name = true) {depth : Nat}
    {lines : List Line} (hb : Body isRule depth lines) : Body isRule' depth lines := by
  induction hb with
  | nil => exact .nil
  | rule hp ha hrule hd _ ih => exact .rule hp ha (h _ hrule) hd ih
  | subproof ha hd _ ih => exact .subproof ha hd ih

theorem Grammatical.mono {isRule isRule' : String → Bool} (h : ∀ name, isRule name = true → isRule' name = true)
    {lines : List Line} (hg : Grammatical isRule lines) : Grammatical isRule' lines := by
  obtain ⟨premises, below, body, rfl, hp, hbody⟩ := hg
  exact ⟨premises, below, body, rfl, hp, hbody.mono h⟩

variable {l₁ l₂ : Library} {steps : List Step}

theorem Accepted.mono {allowed : Option (List Sentence)} (h : ∀ name, ∀ t ∈ l₁.get name, t ∈ l₂.get name)
    (ha : Accepted l₁ allowed steps) : Accepted l₂ allowed steps := by
  refine ⟨ha.numbered, ha.inScope, ha.allowed, fun s hs hp hna => ?_⟩
  obtain ⟨t, ht, hσ⟩ := Library.apply_isOk_iff.mp (ha.justified s hs hp hna)
  exact Library.apply_isOk_iff.mpr ⟨t, h _ t ht, hσ⟩

theorem applicationFault?_congr (h : ∀ name t, t ∈ l₁.get name ↔ t ∈ l₂.get name) :
    applicationFault? steps l₁ = applicationFault? steps l₂ := by
  unfold applicationFault?
  congr 1
  funext s
  rcases Library.apply_congr (citedPremises steps s) s.sentence (h s.reason.rule) with
    ⟨σ₁, σ₂, hσ₁, hσ₂⟩ | ⟨e, he₁, he₂⟩
  · rw [hσ₁, hσ₂]
  · rw [he₁, he₂]

end Proof

section Verdicts

variable {l₁ l₂ : Library} {task : Task} {lines : List String}

/-- What is accepted stays accepted where every rule has all the templates that it had. -/
theorem verify_mono (hcontains : ∀ name, l₁.contains name = true → l₂.contains name = true)
    (hget : ∀ name, ∀ t ∈ l₁.get name, t ∈ l₂.get name) {p : Proof} (h : verify l₁ task lines = .ok p) :
    verify l₂ task lines = .ok p := by
  obtain ⟨hread, hfault⟩ := verify_eq_ok_iff.mp h
  obtain ⟨lines', hlines, hgram, hsteps⟩ := Proof.readProof_eq_ok_iff.mp hread
  obtain ⟨hacc, hconclusion⟩ := Proof.fault?_eq_none_iff.mp hfault
  refine verify_eq_ok_iff.mpr ⟨?_, ?_⟩
  · exact Proof.readProof_eq_ok_iff.mpr ⟨lines', hlines, hgram.mono hcontains, hsteps⟩
  · exact Proof.fault?_eq_none_iff.mpr ⟨hacc.mono hget, hconclusion⟩

/-- Where every rule has the same templates, the faults are the same too. -/
theorem verify_congr (hcontains : ∀ name, l₁.contains name = true ↔ l₂.contains name = true)
    (hget : ∀ name t, t ∈ l₁.get name ↔ t ∈ l₂.get name) : verify l₁ task lines = verify l₂ task lines := by
  have heq : l₁.contains = l₂.contains := by
    funext name
    rw [Bool.eq_iff_iff, hcontains]
  have hcheck : ∀ p : Proof, p.check l₁ task = p.check l₂ task := by
    intro p
    simp only [Proof.check, Proof.fault?, Proof.applicationFault?_congr hget]
  simp only [verify, readProof, heq, hcheck]

end Verdicts

/-- **The verdict depends on the set of templates only, and grows with it.**  A proof text that is accepted with some
library is accepted, as the same proof, with every library that has all templates of the first.  With the same
templates the result is the same, errors included, in whatever order and however often the templates were added. -/
theorem verify_grows_with_templates {l₁ l₂ : Library} (h₁ : l₁.Built) (h₂ : l₂.Built)
    (hsub : ∀ t ∈ l₁.templates, t ∈ l₂.templates) (task : Task) (lines : List String) :
    (∀ p, verify l₁ task lines = .ok p → verify l₂ task lines = .ok p) ∧
      ((∀ t ∈ l₂.templates, t ∈ l₁.templates) → verify l₁ task lines = verify l₂ task lines) := by
  constructor
  · intro p h
    exact verify_mono (h₁.contains_mono h₂ hsub) (h₁.get_mono h₂ hsub) h
  · intro hsup
    apply verify_congr
    · intro name
      exact ⟨h₁.contains_mono h₂ hsub name, h₂.contains_mono h₁ hsup name⟩
    · intro name t
      exact ⟨h₁.get_mono h₂ hsub name t, h₂.get_mono h₁ hsup name t⟩

/-- One form of `-K` is enough where it is used, and trying the templates in the reverse order makes no difference. -/
theorem verify_grows_with_templates_reversed :
    (∃ p, verify (.ofTemplates [Builtin.object "-K" [.binary .and Builtin.a Builtin.b] Builtin.b]) {}
        ["|1 p & q V", "|-", "|2 q -K(1)"] = .ok p ∧
      verify Library.builtin {} ["|1 p & q V", "|-", "|2 q -K(1)"] = .ok p) ∧
    ∃ e, verify Library.builtin {} ["|1 p & q V", "|-", "|2 r -K(1)"] = .error e ∧
      verify (.ofTemplates Builtin.templates.reverse) {} ["|1 p & q V", "|-", "|2 r -K(1)"] = .error e := by
  let both : Sentence := .binary .and (.atom 'p') (.atom 'q')
  let few : List Template := [Builtin.object "-K" [.binary .and Builtin.a Builtin.b] Builtin.b]
  let proof : Proof := ⟨[⟨0, 0, 1, both, ⟨"V", []⟩⟩, ⟨2, 1, 1, .atom 'q', ⟨"-K", [.line 0]⟩⟩]⟩
  have hv : verify (.ofTemplates few) {} ["|1 p & q V", "|-", "|2 q -K(1)"] = .ok proof := by decide +kernel
  have hfew : ∀ t ∈ (Library.ofTemplates few).templates, t ∈ Library.builtin.templates := by
    intro t ht
    rw [Library.mem_templates_ofTemplates, List.mem_singleton] at ht
    rw [ht]
    exact Library.mem_templates_ofTemplates.mpr (by decide)
  have hsame : ∀ t, t ∈ Library.builtin.templates ↔ t ∈ (Library.ofTemplates Builtin.templates.reverse).templates := by
    intro t
    rw [Library.builtin, Library.mem_templates_ofTemplates, Library.mem_templates_ofTemplates, List.mem_reverse]
  have he : verify Library.builtin {} ["|1 p & q V", "|-", "|2 r -K(1)"] =
      .error ⟨.check (.invalidApplication "-K" .doesNotFit), 2,
        some (.step ⟨2, 1, 1, .atom 'r', ⟨"-K", [.line 0]⟩⟩)⟩ := by decide +kernel
  have hgrow := verify_grows_with_templates (Library.built_ofTemplates few)
    (Library.built_ofTemplates Builtin.templates) hfew {} ["|1 p & q V", "|-", "|2 q -K(1)"]
  have hagree := verify_grows_with_templates (Library.built_ofTemplates Builtin.templates)
    (Library.built_ofTemplates Builtin.templates.reverse) (fun t => (hsame t).mp) {} ["|1 p & q V", "|-", "|2 r -K(1)"]
  exact ⟨⟨proof, hv, hgrow.1 proof hv⟩, _, he, (hagree.2 fun t => (hsame t).mpr).symm.trans he⟩

end Deduction
