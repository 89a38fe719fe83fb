/-!
# Sentences

Propositional sentences over single letters.  The patterns of inference rules are sentences too: a schema variable
stands in them for a whole sentence.

* `Sentence.chars`, `Sentence.text`: the printed form, in which every binary connective has its parentheses.
* `Sentence.letters`: the letters that occur, in increasing order and without repetition.
-/

namespace Deduction

/-- The binary connectives. -/
inductive Connective where
  | and
  | or
  | follows
  | equivalent
  deriving Repr, DecidableEq

namespace Connective

/-- How a connective is written. -/
def symbol : Connective → String
  | .and => "&"
  | .or => "|"
  | .follows => "->"
  | .equivalent => "<->"

/-- All connectives, in the order in which a reader tries them. -/
def all : List Connective := [.equivalent, .follows, .and, .or]

/-- The truth function of a connective. -/
def apply : Connective → Bool → Bool → Bool
  | .and, a, b => a && b
  | .or, a, b => a || b
  | .follows, a, b => !a || b
  | .equivalent, a, b => a == b

end Connective

/-- A sentence, or a pattern for sentences if schema variables occur in it. -/
inductive Sentence where
  | atom (letter : Char)
  | var (name : Char)
  | not (operand : Sentence)
  | binary (op : Connective) (lhs rhs : Sentence)
  deriving Repr, DecidableEq

namespace Sentence

/-- The implication from `a` to `b`. -/
abbrev implies (a b : Sentence) : Sentence := .binary .follows a b

/-- The characters of the printed form. -/
def chars : Sentence → List Char
  | .atom letter => [letter]
  | .var name => [name]
  | .not operand => '!' :: operand.chars
  | .binary op lhs rhs => '(' :: lhs.chars ++ ' ' :: op.symbol.toList ++ ' ' :: rhs.chars ++ [')']

/-- The printed form. -/
def text (s : Sentence) : String := String.ofList s.chars

/-- The outermost connective is an implication. -/
def isImplication : Sentence → Bool
  | .binary .follows _ _ => true
  | _ => false

/-- No schema variable occurs. -/
def isGround : Sentence → Bool
  | .atom _ => true
  | .var _ => false
  | .not operand => operand.isGround
  | .binary _ lhs rhs => lhs.isGround && rhs.isGround

/-- The letters from left to right, each as often as it occurs. -/
def occurrences : Sentence → List Char
  | .atom letter => [letter]
  | .var _ => []
  | .not operand => operand.occurrences
  | .binary _ lhs rhs => lhs.occurrences ++ rhs.occurrences

end Sentence

/-- Puts a letter into an increasing list that does not hold it yet; otherwise the list stays as it is. -/
def insertLetter (letter : Char) : List Char → List Char
  | [] => [letter]
  | c :: rest =>
    if letter < c then letter :: c :: rest
    else if letter = c then c :: rest
    else c :: insertLetter letter rest

/-- The members of a list in increasing order, each once. -/
def sortLetters (letters : List Char) : List Char := letters.foldr insertLetter []

/-- The letters that occur in a sentence, in increasing order and each once. -/
def Sentence.letters (s : Sentence) : List Char := sortLetters s.occurrences

end Deduction
