import Deduction.Command.Basic
import Deduction.Diagnostic

/-!
# Checking a proof file
-/

namespace Deduction

namespace Command

/-- The title of a diagnostic as it is shown. -/
def titleLine (d : Diagnostic) : String := styled [.bold, .brightRed] "error" ++ ": " ++ styled [.bold] d.title

/-- What is shown about a proof file. -/
def checkOutcome (library : Library) (task : Task) (spelling : Spelling) (source : Source) : Outcome :=
  match verify library task source.asciiLines with
  | .ok proof => { stdout := unlines (proof.reportLines spelling none) }
  | .error e =>
    { exit := 1, stdout := unlines (failureLines none ++ ["", titleLine (Diagnostic.ofError library source e)]) }

/-- The task that premises and a conclusion make up.  Without premises, all are allowed. -/
def readTask (premises : List String) (conclusion : Option String) : Except CommandError Task := do
  let allowed ← if premises.isEmpty then pure none else some <$> premises.mapM readSentence
  let expected ← conclusion.mapM readSentence
  return ⟨allowed, expected⟩

variable {m : Type → Type} [Monad m] [FileAccess m]

/-- Checks a proof file. -/
def runCheck (file : String) (premises : List String) (conclusion config : Option String) :
    ExceptT CommandError m Outcome := do
  let config ← withConfig (Config.discover config)
  let library ← withConfig config.library
  let task ← readTask premises conclusion
  let text ← withFile file (FileAccess.readText file)
  return checkOutcome library task config.spelling ⟨file, text⟩

end Command

end Deduction
