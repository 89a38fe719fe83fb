import Deduction.Command.Basic

/-!
# Starting a project

A new project is a directory with a configuration file and a proof to start from.
-/

namespace Deduction

namespace Command

/-- The configuration file of a new project. -/
def initialConfig : String :=
  "[display]\n# Print sentences with ¬ ∧ ∨ → ↔ instead of ! & | -> <->.\nunicode = false\n\n" ++
  "# [rules]\n# path = \"rules.toml\"\n"

/-- The proof of a new project. -/
def initialProof : String :=
  unlines ["|1 p -> q V", "|2 q -> r V", "|-", "||3 p A", "||-", "||4 q -I(1,3)", "||5 r -I(2,4)",
    "|6 p -> r +I(3-5)"]

variable {m : Type → Type} [Monad m] [FileAccess m]

/-- Makes the directory of a new project and writes its files. -/
def runInit (name : String) : ExceptT CommandError m Outcome := do
  if ← (FileAccess.isPresent name : m Bool) then throw (.alreadyExists name)
  withFile name (FileAccess.makeDirectory name)
  let configPath := Path.join name configFileName
  withFile configPath (FileAccess.writeText configPath initialConfig)
  let proofPath := Path.join name "example.nd"
  withFile proofPath (FileAccess.writeText proofPath initialProof)
  return { stdout := unlines [styled [.green, .bold] "Created" ++ s!" '{name}'. Try `natded check {proofPath}`."] }

end Command

end Deduction
