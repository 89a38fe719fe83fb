import Mathlib.Data.List.Nodup
import Deduction.Proofs.RuleGroups

/-!
# Stores of rules

A store keeps rules in two fields: a map from names to templates, and the names in the order in which they came up.
Adding a template writes to both, and it notes a name only where the entry in the map is still empty.  Nothing in the
type holds the fields together; that they stay in step is an invariant of whatever is done to a store.

* `Store.InStep`: the invariant of the two fields, kept by `Store.InStep.add` and so along every run of additions.
* `Store.toLibrary_add`, `Store.map_toLibrary_parse`: a store is refined by the library of its groups.
* `store_holds_added`: names, look-ups and listing in terms of the templates that were added.
-/

namespace Deduction

/-- The templates of a collection of rules by name, and the names in the order in which they came up. -/
structure Store where
  entries : Std.HashMap String (List Template)
  order : List String

namespace Store

/-- The store without rules. -/
def empty : Store := ⟨∅, []⟩

/-- Adds a template to the entry of its name.  If there was nothing in the entry, the name is noted. -/
def add (s : Store) (t : Template) : Store :=
  let entry := s.entries.getD t.name []
  ⟨s.entries.insert t.name (entry ++ [t]), if entry.isEmpty then s.order ++ [t.name] else s.order⟩

/-- Adds templates one after the other. -/
def addAll (s : Store) (ts : List Template) : Store := ts.foldl add s

/-- There is an entry of this name. -/
def contains (s : Store) (name : String) : Bool := s.entries.contains name

/-- The templates in the entry of a name. -/
def get (s : Store) (name : String) : List Template := s.entries.getD name []

/-- The names that were noted. -/
def names (s : Store) : List String := s.order

/-- All templates, rule by rule. -/
def templates (s : Store) : List Template := s.order.flatMap s.get

/-- The store of some definitions.  Each is made into a template and added before the next one is looked at. -/
def ofDefinitions (definitions : List Definition) : Except DefinitionError Store :=
  definitions.foldlM (fun s d => return s.add (← d.toTemplate)) empty

/-- The store that the text of a rule file describes. -/
def parse (text : String) : Except LibraryError Store :=
  match definitionsOfToml? text with
  | none => .error .malformed
  | some definitions => (ofDefinitions definitions).mapError .definition

/-- The store started empty or was read from a rule file, and templates have been added to it.  The list has all
templates in the order in which they came in, those of the definitions in the file first. -/
inductive Reached : Store → List Template → Prop
  | empty : Reached empty []
  | file {text : String} {definitions : List Definition} {ts : List Template} {s : Store}
      (hread : definitionsOfToml? text = some definitions) (hts : definitions.mapM Definition.toTemplate = .ok ts)
      (hs : Store.parse text = .ok s) : Reached s ts
  | add {s : Store} {added : List Template} (hs : Reached s added) (t : Template) : Reached (s.add t) (added ++ [t])

/-! ## The map and the order -/

/-- The order has the names of the entries, each of them once, and no entry is empty. -/
structure InStep (s : Store) : Prop where
  nodup : s.order.Nodup
  mem_order_iff : ∀ name, name ∈ s.order ↔ s.contains name = true
  get_ne_nil : ∀ name, s.contains name = true → s.get name ≠ []

section Adding

variable {s : Store} {t : Template} {name : String}

theorem contains_add (s : Store) (t : Template) (name : String) :
    (s.add t).contains name = (t.name == name || s.contains name) := Std.HashMap.contains_insert

theorem get_add_self (s : Store) (t : Template) : (s.add t).get t.name = s.get t.name ++ [t] :=
  Std.HashMap.getD_insert_self

theorem get_add_of_ne (h : t.name ≠ name) : (s.add t).get name = s.get name := by
  show (s.entries.insert t.name (s.get t.name ++ [t])).getD name [] = s.entries.getD name []
  rw [Std.HashMap.getD_insert, if_neg (by simpa using h)]

theorem order_add (s : Store) (t : Template) :
    (s.add t).order = if s.get t.name = [] then s.order ++ [t.name] else s.order := by
  show (if (s.get t.name).isEmpty = true then s.order ++ [t.name] else s.order) = _
  simp only [List.isEmpty_iff]

theorem inStep_empty : empty.InStep where
  nodup := List.nodup_nil
  mem_order_iff name := by
    show name ∈ [] ↔ (∅ : Std.HashMap String (List Template)).contains name = true
    simp
  get_ne_nil name h := by
    have hno : empty.contains name = false := Std.HashMap.contains_empty
    exact absurd (hno.symm.trans h) Bool.false_ne_true

/-- A name has been noted exactly if there is something in its entry. -/
theorem InStep.mem_order_iff_get_ne_nil (h : s.InStep) : name ∈ s.order ↔ s.get name ≠ [] := by
  rw [h.mem_order_iff]
  constructor
  · exact h.get_ne_nil name
  · intro hne
    by_contra hno
    exact hne (Std.HashMap.getD_eq_fallback_of_contains_eq_false (eq_false_of_ne_true hno))

theorem InStep.get_eq_nil (h : s.InStep) (hname : name ∉ s.order) : s.get name = [] := by
  by_contra hne
  exact hname (h.mem_order_iff_get_ne_nil.mpr hne)

theorem InStep.order_add (h : s.InStep) (t : Template) :
    (s.add t).order = if t.name ∈ s.order then s.order else s.order ++ [t.name] := by
  rw [Store.order_add]
  by_cases hname : t.name ∈ s.order
  · rw [if_pos hname, if_neg (h.mem_order_iff_get_ne_nil.mp hname)]
  · rw [if_neg hname, if_pos (h.get_eq_nil hname)]

/-- **Adding a template keeps the map and the order in step.** -/
theorem InStep.add (h : s.InStep) (t : Template) : (s.add t).InStep where
  nodup := by
    rw [h.order_add]
    split
    next => exact h.nodup
    next hnew =>
      rw [← List.concat_eq_append]
      exact h.nodup.concat hnew
  mem_order_iff name := by
    rw [h.order_add, contains_add, Bool.or_eq_true, beq_iff_eq, ← h.mem_order_iff]
    split
    next hold =>
      constructor
      · exact Or.inr
      · rintro (rfl | hname)
        · exact hold
        · exact hname
    next =>
      rw [List.mem_append, List.mem_singleton, or_comm, eq_comm]
  get_ne_nil name hname := by
    by_cases heq : t.name = name
    · subst heq
      rw [get_add_self]
      exact List.append_ne_nil_of_right_ne_nil _ (List.cons_ne_nil t [])
    · rw [contains_add, beq_false_of_ne heq, Bool.false_or] at hname
      rw [get_add_of_ne heq]
      exact h.get_ne_nil name hname

end Adding

/-! ## The library of a store -/

/-- The library whose groups are the entries, in the order of the names. -/
def toLibrary (s : Store) : Library := ⟨s.order.map fun name => (name, s.get name)⟩

/-- The store tells the same about its rules as the library. -/
structure Refines (s : Store) (l : Library) : Prop where
  names : s.names = l.names
  contains : ∀ name, s.contains name = l.contains name
  get : ∀ name, s.get name = l.get name
  templates : s.templates = l.templates

section Refinement

variable {s : Store} {name : String}

theorem map_fst_entries (s : Store) (part : List String) :
    (part.map fun name => (name, s.get name)).map Prod.fst = part := by
  rw [List.map_map]
  exact List.map_id part

theorem names_toLibrary (s : Store) : s.toLibrary.names = s.names := map_fst_entries s s.order

theorem InStep.get_toLibrary (h : s.InStep) (name : String) : s.toLibrary.get name = s.get name := by
  have hnodup : s.toLibrary.names.Nodup := by
    rw [names_toLibrary]
    exact h.nodup
  by_cases hname : name ∈ s.order
  · exact Library.get_of_mem_groups hnodup (List.mem_map_of_mem hname)
  · have hnone : s.toLibrary.groups.lookup name = none := by
      rw [List.lookup_eq_none_iff]
      intro g hg
      obtain ⟨other, hother, rfl⟩ := List.mem_map.mp hg
      exact bne_iff_ne.mpr fun heq => hname (heq ▸ hother)
    rw [Library.get, hnone, h.get_eq_nil hname]
    rfl

/-- **A store in step tells the same as its library.** -/
theorem InStep.refines_toLibrary (h : s.InStep) : s.Refines s.toLibrary where
  names := (names_toLibrary s).symm
  contains name := by
    rw [Bool.eq_iff_iff, Library.contains_iff_mem_names, names_toLibrary]
    exact (h.mem_order_iff name).symm
  get name := (h.get_toLibrary name).symm
  templates := by
    show s.order.flatMap s.get = s.toLibrary.names.flatMap s.toLibrary.get
    rw [names_toLibrary, funext h.get_toLibrary]
    rfl

/-- **Adding a template to a store in step adds it to the library.** -/
theorem InStep.toLibrary_add (h : s.InStep) (t : Template) : (s.add t).toLibrary = s.toLibrary.add t := by
  -- the entries of other names stay as they are
  have hothers : ∀ part : List String, t.name ∉ part →
      part.map (fun name => (name, (s.add t).get name)) = part.map fun name => (name, s.get name) := by
    intro part hpart
    refine List.map_congr_left fun name hname => ?_
    rw [get_add_of_ne fun heq => hpart (heq ▸ hname)]
  refine congrArg Library.mk ?_
  show (s.add t).order.map (fun name => (name, (s.add t).get name)) =
    Library.addTo t (s.order.map fun name => (name, s.get name))
  rw [h.order_add]
  by_cases hname : t.name ∈ s.order
  · -- the group of the name grows where it stands; being noted once, the name has no second group
    obtain ⟨front, back, horder⟩ := List.append_of_mem hname
    have hnodup := h.nodup
    rw [horder, List.nodup_append, List.nodup_cons] at hnodup
    obtain ⟨-, ⟨hback, -⟩, hfront⟩ := hnodup
    have hfront : t.name ∉ front := fun hmem => hfront _ hmem _ List.mem_cons_self rfl
    rw [if_pos hname, horder, List.map_append, List.map_cons, hothers front hfront, hothers back hback, get_add_self,
      List.map_append, List.map_cons, Library.addTo_append (by rwa [map_fst_entries]), Library.addTo_cons]
  · -- the entry was empty: the template alone makes up a group after the others
    rw [if_neg hname, List.map_append, hothers s.order hname, List.map_singleton, get_add_self, h.get_eq_nil hname,
      Library.addTo_of_not_mem (by rwa [map_fst_entries])]
    rfl

end Refinement

/-! ## Runs of additions -/

section Runs

variable {s : Store} {added : List Template}

/-- **The map and the order are in step along every run of additions,** and the library goes along. -/
theorem InStep.addAll (h : s.InStep) (ts : List Template) :
    (s.addAll ts).InStep ∧ (s.addAll ts).toLibrary = s.toLibrary.addAll ts := by
  induction ts generalizing s with
  | nil => exact ⟨h, rfl⟩
  | cons t ts ih =>
    obtain ⟨hstep, hlibrary⟩ := ih (h.add t)
    refine ⟨hstep, ?_⟩
    rw [h.toLibrary_add] at hlibrary
    exact hlibrary

theorem ofDefinitions_eq (definitions : List Definition) :
    ofDefinitions definitions = empty.addAll <$> definitions.mapM Definition.toTemplate := by
  have hloop : ∀ s : Store, definitions.foldlM (fun s d => return s.add (← d.toTemplate)) s =
      s.addAll <$> definitions.mapM Definition.toTemplate := by
    induction definitions with
    | nil => exact fun s => rfl
    | cons d definitions ih =>
      intro s
      rw [List.foldlM_cons, List.mapM_cons]
      cases d.toTemplate with
      | error e => rfl
      | ok t =>
        show definitions.foldlM (fun s d => return s.add (← d.toTemplate)) (s.add t) = _
        rw [ih]
        cases definitions.mapM Definition.toTemplate <;> rfl
  exact hloop empty

/-- A rule file yields the templates of its definitions, one after the other. -/
theorem parse_eq_ok_iff {text : String} : Store.parse text = .ok s ↔ ∃ definitions ts,
    definitionsOfToml? text = some definitions ∧ definitions.mapM Definition.toTemplate = .ok ts ∧
      s = empty.addAll ts := by
  unfold Store.parse
  cases definitionsOfToml? text with
  | none => simp
  | some definitions =>
    simp only [ofDefinitions_eq]
    cases hts : definitions.mapM Definition.toTemplate with
    | error e => simp [Except.mapError, hts]
    | ok ts => simp [Except.mapError, hts, eq_comm]

/-- **Reading a rule file gives the same rules in a store and in a library,** and the same error if it cannot be
used. -/
theorem map_toLibrary_parse (text : String) : (Store.parse text).map toLibrary = Library.parse text := by
  unfold Store.parse Library.parse
  cases definitionsOfToml? text with
  | none => rfl
  | some definitions =>
    simp only [ofDefinitions_eq, Library.ofDefinitions]
    cases definitions.mapM Definition.toTemplate with
    | error e => rfl
    | ok ts => exact congrArg Except.ok (inStep_empty.addAll ts).2

theorem addAll_concat (s : Store) (ts : List Template) (t : Template) :
    s.addAll (ts ++ [t]) = (s.addAll ts).add t := by
  simp [addAll, List.foldl_append]

theorem Reached.eq_addAll (h : s.Reached added) : s = Store.empty.addAll added := by
  induction h with
  | empty => rfl
  | @file text definitions ts s hread hts hs =>
    obtain ⟨definitions', ts', hread', hts', rfl⟩ := parse_eq_ok_iff.mp hs
    cases hread.symm.trans hread'
    cases hts.symm.trans hts'
    rfl
  | @add s added _ t ih => rw [ih, addAll_concat]

theorem Reached.inStep (h : s.Reached added) : s.InStep := by
  rw [h.eq_addAll]
  exact (inStep_empty.addAll added).1

/-- **Every store that can be reached refines the library of the templates that were added.** -/
theorem Reached.refines (h : s.Reached added) : s.Refines (Library.ofTemplates added) := by
  have hlibrary : s.toLibrary = Library.ofTemplates added := by
    rw [h.eq_addAll]
    exact (inStep_empty.addAll added).2
  rw [← hlibrary]
  exact h.inStep.refines_toLibrary

theorem exists_reached_of_built {l : Library} (h : l.Built) :
    ∃ s added, Reached s added ∧ l = Library.ofTemplates added := by
  induction h with
  | empty => exact ⟨empty, [], .empty, rfl⟩
  | file hl =>
    obtain ⟨definitions, ts, hread, hts, rfl⟩ := Library.parse_eq_ok_iff.mp hl
    exact ⟨empty.addAll ts, ts, .file hread hts (parse_eq_ok_iff.mpr ⟨definitions, ts, hread, hts, rfl⟩), rfl⟩
  | add t _ ih =>
    obtain ⟨s, added, hs, rfl⟩ := ih
    exact ⟨s.add t, added ++ [t], hs.add t, (Library.ofTemplates_concat added t).symm⟩

theorem reached_addAll (ts : List Template) : (empty.addAll ts).Reached ts := by
  induction ts using List.reverseRecOn with
  | nil => exact .empty
  | append_singleton ts t ih =>
    rw [addAll_concat]
    exact ih.add t

end Runs

/-- What the store tells about itself is what was added to it. -/
structure Holds (s : Store) (added : List Template) : Prop where
  /-- No name is listed twice. -/
  names_nodup : s.names.Nodup
  /-- A name comes before another one if its first template was added before the first one of the other. -/
  names_ordered : s.names.Pairwise fun a b => (added.map Template.name).idxOf a < (added.map Template.name).idxOf b
  /-- The map has entries for the names in the list, and for no others. -/
  contains_iff : ∀ name, s.contains name = true ↔ name ∈ s.names
  /-- The names in the list are those with templates. -/
  mem_names_iff : ∀ name, name ∈ s.names ↔ s.get name ≠ []
  /-- The templates of a name are those that were added, in that order and as often. -/
  get_eq : ∀ name, s.get name = added.filter fun t => t.name = name
  /-- All templates are listed, name by name. -/
  templates_eq : s.templates = s.names.flatMap s.get
  templates_perm : s.templates.Perm added
  /-- Adding the templates again in the order of the list makes no difference. -/
  readded_names : (empty.addAll s.templates).names = s.names
  readded_get : ∀ name, (empty.addAll s.templates).get name = s.get name
  readded_templates : (empty.addAll s.templates).templates = s.templates

/-- The templates of a store, added again, make a store that refines the same library. -/
theorem Reached.readded {s : Store} {added : List Template} (h : s.Reached added) :
    (Store.empty.addAll s.templates).Refines (Library.ofTemplates added) := by
  have hagain := (reached_addAll s.templates).refines
  have hsame : Library.ofTemplates s.templates = Library.ofTemplates added := by
    rw [h.refines.templates]
    exact (Library.wellFormed_ofTemplates added).addAll_templates
  rwa [hsame] at hagain

end Store

/-- **A store holds what was added to it.**  However a store came about, from nothing or from a rule file and by any
additions, its map and its order are in step, and what it tells is determined by the templates that were added, as
`Store.Holds` says.  It tells the same as the library of these templates: rule files give the same rules and errors in
both, and every library comes about along with a store. -/
theorem store_holds_added :
    (∀ (s : Store) (added : List Template), s.Reached added →
      s.Holds added ∧ s.Refines (Library.ofTemplates added)) ∧
    (∀ text, (Store.parse text).map Store.toLibrary = Library.parse text) ∧
    ∀ l : Library, l.Built →
      ∃ (s : Store) (added : List Template), s.Reached added ∧ l = Library.ofTemplates added := by
  refine ⟨fun s added h => ?_, Store.map_toLibrary_parse, fun l hl => Store.exists_reached_of_built hl⟩
  have hl := h.refines
  refine ⟨?_, hl⟩
  exact {
    names_nodup := h.inStep.nodup
    names_ordered := by
      rw [hl.names]
      exact Library.names_ofTemplates_pairwise added
    contains_iff := fun name => (h.inStep.mem_order_iff name).symm
    mem_names_iff := fun name => h.inStep.mem_order_iff_get_ne_nil
    get_eq := fun name => (hl.get name).trans (Library.get_ofTemplates added name)
    templates_eq := rfl
    templates_perm := by
      rw [hl.templates]
      exact Library.templates_ofTemplates_perm added
    readded_names := h.readded.names.trans hl.names.symm
    readded_get := fun name => (h.readded.get name).trans (hl.get name).symm
    readded_templates := h.readded.templates.trans hl.templates.symm }

/-- A rule file with one template, another rule, and the first template once more. -/
theorem store_holds_added_interleaved : ∃ s : Store,
    Store.parse "[[rule]]\nname = \"R\"\nkind = \"object\"\narity = 1\npremises = [\"A\"]\nconclusion = \"A\"" =
      .ok s ∧
    ((s.add (Builtin.object "T" [] (Builtin.a.implies Builtin.a))).add
      (Builtin.object "R" [Builtin.a] Builtin.a)).get "R" =
        [Builtin.object "R" [Builtin.a] Builtin.a, Builtin.object "R" [Builtin.a] Builtin.a] ∧
    ((s.add (Builtin.object "T" [] (Builtin.a.implies Builtin.a))).add
      (Builtin.object "R" [Builtin.a] Builtin.a)).contains "T" = true ∧
    ((s.add (Builtin.object "T" [] (Builtin.a.implies Builtin.a))).add
      (Builtin.object "R" [Builtin.a] Builtin.a)).templates.Perm
        [Builtin.object "R" [Builtin.a] Builtin.a, Builtin.object "T" [] (Builtin.a.implies Builtin.a),
          Builtin.object "R" [Builtin.a] Builtin.a] := by
  let repetition : Template := Builtin.object "R" [Builtin.a] Builtin.a
  let tautology : Template := Builtin.object "T" [] (Builtin.a.implies Builtin.a)
  have hread : definitionsOfToml?
      "[[rule]]\nname = \"R\"\nkind = \"object\"\narity = 1\npremises = [\"A\"]\nconclusion = \"A\"" =
        some [⟨"R", .object, 1, [⟨none, "A"⟩], "A", false⟩] := by decide +kernel
  have hts : [(⟨"R", .object, 1, [⟨none, "A"⟩], "A", false⟩ : Definition)].mapM Definition.toTemplate =
      .ok [repetition] := by decide +kernel
  have hs := Store.parse_eq_ok_iff.mpr ⟨_, _, hread, hts, rfl⟩
  have hholds :=
    (store_holds_added.1 _ _ (((Store.Reached.file hread hts hs).add tautology).add repetition)).1
  refine ⟨_, hs, (hholds.get_eq "R").trans (by decide), ?_, hholds.templates_perm⟩
  rw [hholds.contains_iff, hholds.mem_names_iff, hholds.get_eq]
  decide

end Deduction
