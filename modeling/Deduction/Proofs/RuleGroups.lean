import Mathlib.Data.List.Nodup
import Deduction.Proofs.RuleSets

/-!
# Groups of templates

A library keeps its templates in groups, one for every name.  However templates of different names come in, the names
of the groups differ, none of the groups is empty, and every template is in the group of its name.  So nothing is lost,
repeated or moved within a rule, and the names are in the order in which they first came up.

* `Library.addTo_cases`: what adding a template does to the groups.
* `Library.WellFormed`: the invariant of the groups, kept by `Library.WellFormed.add`.
* `Library.templates_ofTemplates_perm`, `Library.names_ofTemplates_pairwise`: what is listed, and in which order.
* `Library.WellFormed.addAll_templates`: a library is what its templates make it when they are added again.
-/

namespace Deduction

namespace Library

/-- The groups have different names, none of them is empty, and every template is in the group of its name. -/
structure WellFormed (l : Library) : Prop where
  nodup : l.names.Nodup
  nonempty : ∀ g ∈ l.groups, g.2 ≠ []
  named : ∀ g ∈ l.groups, ∀ t ∈ g.2, t.name = g.1

/-! ## Adding a template -/

section Adding

variable {l : Library} {t : Template}

theorem addTo_append {front : List (String × List Template)} (h : t.name ∉ front.map Prod.fst)
    (rest : List (String × List Template)) : addTo t (front ++ rest) = front ++ addTo t rest := by
  induction front with
  | nil => rfl
  | cons g front ih =>
    rw [List.map_cons, List.mem_cons, not_or] at h
    rw [List.cons_append, addTo, if_neg (Ne.symm h.1), ih h.2, List.cons_append]

theorem addTo_of_not_mem {groups : List (String × List Template)} (h : t.name ∉ groups.map Prod.fst) :
    addTo t groups = groups ++ [(t.name, [t])] := by
  have hnew := addTo_append h []
  rw [List.append_nil] at hnew
  exact hnew

theorem addTo_cons (t : Template) (ts : List Template) (back : List (String × List Template)) :
    addTo t ((t.name, ts) :: back) = (t.name, ts ++ [t]) :: back := if_pos rfl

/-- A template goes to the end of the group of its name, or makes a group of its own after the others. -/
theorem addTo_cases (t : Template) (groups : List (String × List Template)) :
    (t.name ∉ groups.map Prod.fst ∧ addTo t groups = groups ++ [(t.name, [t])]) ∨
      ∃ front ts back, groups = front ++ (t.name, ts) :: back ∧
        addTo t groups = front ++ (t.name, ts ++ [t]) :: back := by
  by_cases hname : t.name ∈ groups.map Prod.fst
  · obtain ⟨_, _, hnames, hfirst⟩ := List.eq_append_cons_of_mem hname
    obtain ⟨front, rest, rfl, rfl, hrest⟩ := List.map_eq_append_iff.mp hnames
    obtain ⟨⟨_, ts⟩, back, rfl, rfl, -⟩ := List.map_eq_cons_iff.mp hrest
    exact Or.inr ⟨front, ts, back, rfl, by rw [addTo_append hfirst, addTo_cons]⟩
  · exact Or.inl ⟨hname, addTo_of_not_mem hname⟩

theorem names_add (l : Library) (t : Template) :
    (l.add t).names = if t.name ∈ l.names then l.names else l.names ++ [t.name] := by
  unfold names add
  rcases addTo_cases t l.groups with ⟨hnot, heq⟩ | ⟨front, ts, back, hgroups, heq⟩
  · rw [if_neg hnot, heq, List.map_append]
    rfl
  · rw [heq, hgroups]
    simp

theorem mem_groups_add {g : String × List Template} (hg : g ∈ (l.add t).groups) :
    g ∈ l.groups ∨ ∃ ts, g = (t.name, ts ++ [t]) ∧ (ts = [] ∨ (t.name, ts) ∈ l.groups) := by
  rcases addTo_cases t l.groups with ⟨-, heq⟩ | ⟨front, ts, back, hgroups, heq⟩
  · rw [add, heq, List.mem_append, List.mem_singleton] at hg
    exact hg.imp_right fun h => ⟨[], h, Or.inl rfl⟩
  · rw [add, heq, List.mem_append, List.mem_cons] at hg
    rw [hgroups]
    rcases hg with hg | rfl | hg
    · exact Or.inl (List.mem_append_left _ hg)
    · exact Or.inr ⟨ts, rfl, Or.inr (by simp)⟩
    · exact Or.inl (List.mem_append_right _ (List.mem_cons_of_mem _ hg))

theorem wellFormed_empty : empty.WellFormed :=
  ⟨List.nodup_nil, fun _ hg => absurd hg List.not_mem_nil, fun _ hg => absurd hg List.not_mem_nil⟩

theorem WellFormed.add (h : l.WellFormed) (t : Template) : (l.add t).WellFormed where
  nodup := by
    rw [names_add]
    split
    next => exact h.nodup
    next hnew =>
      rw [← List.concat_eq_append]
      exact h.nodup.concat hnew
  nonempty g hg := by
    rcases mem_groups_add hg with hg | ⟨ts, rfl, -⟩
    · exact h.nonempty g hg
    · exact List.append_ne_nil_of_right_ne_nil ts (List.cons_ne_nil t [])
  named g hg u hu := by
    rcases mem_groups_add hg with hg | ⟨ts, rfl, hts⟩
    · exact h.named g hg u hu
    · rcases List.mem_append.mp hu with hu | hu
      · rcases hts with rfl | hts
        · exact absurd hu List.not_mem_nil
        · exact h.named _ hts u hu
      · rw [List.mem_singleton.mp hu]

/-- The groups list the templates as they were, and the new one. -/
theorem flatMap_addTo_perm (t : Template) (groups : List (String × List Template)) :
    ((addTo t groups).flatMap Prod.snd).Perm (groups.flatMap Prod.snd ++ [t]) := by
  rcases addTo_cases t groups with ⟨-, heq⟩ | ⟨front, ts, back, rfl, heq⟩
  · rw [heq, List.flatMap_append]
    exact List.Perm.refl _
  · simp only [heq, List.flatMap_append, List.flatMap_cons, List.append_assoc]
    exact ((List.perm_append_comm).append_left ts).append_left _

end Adding

/-! ## Look-ups and listing -/

section LookUps

variable {l : Library} {name : String}

theorem get_of_mem_groups (h : l.names.Nodup) {ts : List Template} (hg : (name, ts) ∈ l.groups) : l.get name = ts := by
  obtain ⟨front, back, hgroups⟩ := List.append_of_mem hg
  have hfront : ∀ p ∈ front, (name != p.1) = true := by
    intro p hp
    rw [names, hgroups, List.map_append, List.nodup_append] at h
    exact bne_iff_ne.mpr (h.2.2 p.1 (List.mem_map_of_mem hp) name List.mem_cons_self).symm
  have hlookup : l.groups.lookup name = some ts := List.lookup_eq_some_iff.mpr ⟨front, back, hgroups, hfront⟩
  rw [get, hlookup]
  rfl

theorem templates_eq_flatMap (h : l.names.Nodup) : l.templates = l.groups.flatMap Prod.snd := by
  rw [templates, names, List.flatMap_map]
  exact List.flatMap_congr fun g hg => get_of_mem_groups h hg

theorem WellFormed.templates_add_perm (h : l.WellFormed) (t : Template) :
    (l.add t).templates.Perm (l.templates ++ [t]) := by
  rw [templates_eq_flatMap (h.add t).nodup, templates_eq_flatMap h.nodup]
  exact flatMap_addTo_perm t l.groups

end LookUps

/-! ## Adding templates one after the other -/

section Runs

variable {l : Library}

theorem addAll_append (l : Library) (ts us : List Template) : l.addAll (ts ++ us) = (l.addAll ts).addAll us :=
  List.foldl_append

theorem wellFormed_ofTemplates (ts : List Template) : (ofTemplates ts).WellFormed := by
  induction ts using List.reverseRecOn with
  | nil => exact wellFormed_empty
  | append_singleton ts t ih =>
    rw [ofTemplates_concat]
    exact ih.add t

/-- **A library lists every template that was added, as often as it was added.** -/
theorem templates_ofTemplates_perm (ts : List Template) : (ofTemplates ts).templates.Perm ts := by
  induction ts using List.reverseRecOn with
  | nil => exact List.Perm.refl _
  | append_singleton ts t ih =>
    rw [ofTemplates_concat]
    exact ((wellFormed_ofTemplates ts).templates_add_perm t).trans (ih.append_right [t])

/-- **The names are in the order in which they first came up.** -/
theorem names_ofTemplates_pairwise (ts : List Template) :
    (ofTemplates ts).names.Pairwise fun a b => (ts.map Template.name).idxOf a < (ts.map Template.name).idxOf b := by
  induction ts using List.reverseRecOn with
  | nil => exact List.Pairwise.nil
  | append_singleton ts t ih =>
    have hmem : ∀ name ∈ (ofTemplates ts).names, name ∈ ts.map Template.name := by
      intro name hname
      obtain ⟨u, hu, hu'⟩ := mem_names_ofTemplates.mp hname
      exact List.mem_map.mpr ⟨u, hu, hu'⟩
    -- a name that was there has its place already
    have hold : ∀ name ∈ (ofTemplates ts).names,
        ((ts ++ [t]).map Template.name).idxOf name = (ts.map Template.name).idxOf name := by
      intro name hname
      rw [List.map_append, List.idxOf_append, if_pos (hmem name hname)]
    have hkept : (ofTemplates ts).names.Pairwise fun a b =>
        ((ts ++ [t]).map Template.name).idxOf a < ((ts ++ [t]).map Template.name).idxOf b := by
      refine ih.imp_of_mem fun ha hb hab => ?_
      rwa [hold _ ha, hold _ hb]
    rw [ofTemplates_concat, names_add]
    split
    next => exact hkept
    next hnew =>
      refine List.pairwise_append.mpr ⟨hkept, List.pairwise_singleton _ _, fun a ha b hb => ?_⟩
      have hnot : t.name ∉ ts.map Template.name := fun h => hnew (mem_names_ofTemplates.mpr (List.mem_map.mp h))
      rw [List.mem_singleton.mp hb, hold a ha, List.map_append, List.idxOf_append, if_neg hnot]
      exact Nat.lt_of_lt_of_le (List.idxOf_lt_length_of_mem (hmem a ha)) (Nat.le_add_left _ _)

/-- A name that is new gets its templates as a group at the end. -/
theorem addAll_group {name : String} {ts : List Template} (hnew : name ∉ l.names) (hne : ts ≠ [])
    (hts : ∀ t ∈ ts, t.name = name) : l.addAll ts = ⟨l.groups ++ [(name, ts)]⟩ := by
  induction ts using List.reverseRecOn with
  | nil => exact absurd rfl hne
  | append_singleton ts t ih =>
    obtain rfl : t.name = name := hts t (by simp)
    have hadd : ∀ rest, (Library.mk (l.groups ++ rest)).add t = ⟨l.groups ++ addTo t rest⟩ := fun rest =>
      congrArg Library.mk (addTo_append hnew rest)
    rw [addAll_concat]
    by_cases hempty : ts = []
    · subst hempty
      have := hadd []
      rw [List.append_nil] at this
      exact this
    · rw [ih hempty fun u hu => hts u (List.mem_append_left _ hu), hadd, addTo_cons]

theorem WellFormed.of_concat {front : List (String × List Template)} {g : String × List Template}
    (h : (Library.mk (front ++ [g])).WellFormed) : (Library.mk front).WellFormed ∧ g.1 ∉ front.map Prod.fst := by
  have hnodup := h.nodup
  rw [names, List.map_append, List.nodup_append] at hnodup
  obtain ⟨hfront, -, hnew⟩ := hnodup
  refine ⟨⟨hfront, fun g hg => h.nonempty g (List.mem_append_left _ hg),
    fun g hg => h.named g (List.mem_append_left _ hg)⟩, fun hg => hnew g.1 hg g.1 (List.mem_singleton_self _) rfl⟩

/-- **Adding the templates of a library again, as they are listed, gives the library.** -/
theorem WellFormed.addAll_templates (h : l.WellFormed) : empty.addAll l.templates = l := by
  rw [templates_eq_flatMap h.nodup]
  obtain ⟨groups⟩ := l
  induction groups using List.reverseRecOn with
  | nil => rfl
  | append_singleton front g ih =>
    obtain ⟨hfront, hnew⟩ := h.of_concat
    have hg : g ∈ (Library.mk (front ++ [g])).groups := List.mem_append_right _ (List.mem_singleton_self g)
    rw [List.flatMap_append, List.flatMap_singleton, addAll_append, ih hfront]
    exact addAll_group hnew (h.nonempty g hg) (h.named g hg)

end Runs

end Library

end Deduction
