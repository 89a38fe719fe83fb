import Deduction.Sentence.Basic

/-!
# Spellings of the connectives

The connectives have an ASCII spelling, which readers take, and a Unicode spelling for display.

* `toAscii`: replaces every Unicode connective.  It is safe on whole proof lines.
* `toUnicode`: replaces every ASCII connective, `<->` winning over the `->` inside it.  It is meant for sentences: the
  depth bars of a proof line would be taken for disjunctions.
-/

namespace Deduction

/-- The ASCII spelling of a character that is a Unicode connective; other characters stay as they are. -/
def asciiSpelling (c : Char) : List Char :=
  match c with
  | '¬' => ['!']
  | '∧' => ['&']
  | '∨' => ['|']
  | '→' => ['-', '>']
  | '↔' => ['<', '-', '>']
  | _ => [c]

/-- A text with its Unicode connectives in ASCII spelling. -/
def toAscii (text : List Char) : List Char := text.flatMap asciiSpelling

/-- A text with its ASCII connectives in Unicode spelling. -/
def toUnicode : List Char → List Char
  | [] => []
  | '<' :: '-' :: '>' :: rest => '↔' :: toUnicode rest
  | '-' :: '>' :: rest => '→' :: toUnicode rest
  | '!' :: rest => '¬' :: toUnicode rest
  | '&' :: rest => '∧' :: toUnicode rest
  | '|' :: rest => '∨' :: toUnicode rest
  | c :: rest => c :: toUnicode rest

/-- How sentences are shown. -/
inductive Spelling where
  | ascii
  | unicode
  deriving Repr, DecidableEq

namespace Spelling

/-- A text without depth bars in a spelling. -/
def spell : Spelling → List Char → List Char
  | .ascii, text => text
  | .unicode, text => toUnicode text

/-- A sentence in a spelling. -/
def sentence (spelling : Spelling) (s : Sentence) : List Char := spelling.spell s.chars

end Spelling

end Deduction
