import Deduction.Command.Basic

/-!
# The truth table of a sentence
-/

namespace Deduction

namespace Command

/-- The row of a truth table for one interpretation: the values of the letters and that of the sentence. -/
def tableRow (s : Sentence) (i : Interpretation) : Except EvalError String := do
  let value ← s.evaluate i
  let values := " ".intercalate (i.entries.map fun e => String.singleton (truthChar e.2))
  return s!"{values} | {truthChar value}"

/-- The truth table of a sentence, its header first. -/
def truthTable (s : Sentence) (spelling : Spelling) : Except EvalError (List String) := do
  let header := " ".intercalate (s.letters.map String.singleton) ++ " | " ++ String.ofList (spelling.sentence s)
  let rows ← (interpretations s.letters).mapM (tableRow s)
  return header :: rows

/-- What the models of a sentence amount to. -/
def modelsVerdict (models : Models) : String :=
  let count := models.satisfying.length
  if models.falsifying.isEmpty then styled [.green, .bold] "tautology"
  else if count = 0 then styled [.red, .bold] "contradiction"
  else styled [.bold] (toString count) ++ " model" ++ plural count

/-- What is shown about the models of a sentence. -/
def modelsLines (s : Sentence) (spelling : Spelling) : Except EvalError (List String) := do
  let table ← truthTable s spelling
  return table ++ ["", modelsVerdict (← s.models)]

variable {m : Type → Type} [Monad m] [FileAccess m]

/-- Shows the truth table of a sentence and the number of its models. -/
def runModels (sentence : String) (config : Option String) : ExceptT CommandError m Outcome := do
  let config ← withConfig (Config.discover config)
  let s ← readSentence sentence
  let lines ← (modelsLines s config.spelling).mapError CommandError.evaluation
  return { stdout := unlines lines }

end Command

end Deduction
