import Deduction.Rule.Template

/-!
# Rule libraries

A library holds the templates of its rules.  Templates that share a name are alternatives: a step is justified if one
of them applies.  Names are kept in the order in which they were first added, and the templates of a name likewise.
-/

namespace Deduction

/-- The templates of a collection of rules, grouped by name. -/
structure Library where
  groups : List (String × List Template)
  deriving Repr, DecidableEq

namespace Library

/-- The library without rules. -/
def empty : Library := ⟨[]⟩

/-- Adds a template to the group of its name, or as a new group after the others. -/
def addTo (t : Template) : List (String × List Template) → List (String × List Template)
  | [] => [(t.name, [t])]
  | (name, templates) :: rest =>
    if name = t.name then (name, templates ++ [t]) :: rest else (name, templates) :: addTo t rest

/-- Adds a template. -/
def add (l : Library) (t : Template) : Library := ⟨addTo t l.groups⟩

/-- Adds templates one after the other. -/
def addAll (l : Library) (templates : List Template) : Library := templates.foldl add l

/-- The library of the given templates. -/
def ofTemplates (templates : List Template) : Library := empty.addAll templates

/-- The names of the rules, in the order in which they were first added. -/
def names (l : Library) : List String := l.groups.map Prod.fst

/-- There is a rule of this name. -/
def contains (l : Library) (name : String) : Bool := l.groups.any (·.1 == name)

/-- The templates of a rule, in the order in which they were added. -/
def get (l : Library) (name : String) : List Template := (l.groups.lookup name).getD []

/-- All templates, rule by rule. -/
def templates (l : Library) : List Template := l.names.flatMap l.get

/-- The outcome of the first template that applies.  If none does, `otherwise`, unless some template took the number of
premises and failed to fit. -/
def firstFit (premises : List Premise) (conclusion : Sentence) :
    List Template → MatchError → Except MatchError Substitution
  | [], otherwise => .error otherwise
  | t :: rest, otherwise => match t.apply premises conclusion with
    | .ok σ => .ok σ
    | .error .wrongPremiseCount => firstFit premises conclusion rest otherwise
    | .error _ => firstFit premises conclusion rest .doesNotFit

/-- The substitution under which the rule of this name justifies `conclusion` from `premises`. -/
def apply (l : Library) (name : String) (premises : List Premise) (conclusion : Sentence) :
    Except MatchError Substitution :=
  firstFit premises conclusion (l.get name) .wrongPremiseCount

end Library

end Deduction
