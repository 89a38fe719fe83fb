import Deduction.Rule.Library

/-!
# The built-in rules

Repetition and tautology; introduction (`+`) and elimination (`-`) of conjunction (`K`), disjunction (`A`), implication
(`I`), equivalence (`Ä`) and double negation (`DN`); reductio ad absurdum; and the two paradoxes of implication.
-/

namespace Deduction

namespace Builtin

/-- The schema variable `A`. -/
abbrev a : Sentence := .var 'A'

/-- The schema variable `B`. -/
abbrev b : Sentence := .var 'B'

/-- The schema variable `C`. -/
abbrev c : Sentence := .var 'C'

/-- A template all of whose premises are lines. -/
def object (name : String) (premises : List Sentence) (conclusion : Sentence) : Template :=
  ⟨name, .object, premises.map (⟨.object, ·⟩), conclusion, false⟩

/-- A template all of whose premises are sub-proofs. -/
def overSubproofs (name : String) (premises : List Sentence) (conclusion : Sentence) : Template :=
  ⟨name, .metaLevel, premises.map (⟨.metaLevel, ·⟩), conclusion, false⟩

/-- The same template with a last premise that may count several times. -/
def repeating (t : Template) : Template := { t with repeatsLast := true }

/-- The templates of the built-in rules. -/
def templates : List Template :=
  [object "R" [a] a,
   object "T" [] (a.implies a),
   object "+K" [a, b] (.binary .and a b),
   object "-K" [.binary .and a b] a,
   object "-K" [.binary .and a b] b,
   object "+A" [a] (.binary .or a b),
   object "+A" [b] (.binary .or a b),
   object "+A" [a.implies b, (Sentence.not a).implies c] (.binary .or b c),
   object "+A" [(Sentence.not a).implies b, a.implies c] (.binary .or b c),
   -- a disjunction of identical sides needs its implication only once
   repeating (object "-A" [.binary .or a b, a.implies c, b.implies c] c),
   object "-A" [.binary .or a b, b.implies c, a.implies c] c,
   ⟨"-A", .metaLevel,
     [⟨.object, .binary .or a b⟩, ⟨.metaLevel, a.implies c⟩, ⟨.metaLevel, b.implies c⟩], c, true⟩,
   overSubproofs "+I" [a.implies b] (a.implies b),
   object "-I" [a.implies b, a] b,
   object "+Ä" [a.implies b, b.implies a] (.binary .equivalent a b),
   object "-Ä" [.binary .equivalent a b] (a.implies b),
   object "-Ä" [.binary .equivalent a b] (b.implies a),
   object "+DN" [a] (.not (.not a)),
   object "-DN" [.not (.not a)] a,
   -- both halves of the contradiction usually come from the same sub-proof
   repeating (overSubproofs "RAA" [a.implies b, a.implies (.not b)] (.not a)),
   repeating (overSubproofs "RAA" [(Sentence.not a).implies b, (Sentence.not a).implies (.not b)] a),
   object "EFQ" [.not a] (a.implies b),
   object "EFQ" [a] ((Sentence.not a).implies b),
   object "VEQ" [a] (b.implies a)]

end Builtin

/-- The library of the built-in rules. -/
def Library.builtin : Library := ofTemplates Builtin.templates

end Deduction
