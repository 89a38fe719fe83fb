import Deduction.Command.Basic

/-!
# Listing the rules
-/

namespace Deduction

namespace Command

/-- The line for one form of a rule. -/
def formLine (spelling : Spelling) (t : Template) : String :=
  let premises := ", ".intercalate (t.premises.map fun p => String.ofList (spelling.spell p.chars))
  let again := if t.repeatsLast then " " ++ styled [.gray] "(last premise may repeat)" else ""
  let arity := styled [.gray] (toString t.arity)
  s!"    {t.level.text} {arity} {premises} => " ++
    String.ofList (spelling.sentence t.conclusion) ++ again

/-- The lines for all rules of a library: each name, and below it the forms of the rule. -/
def ruleLines (library : Library) (spelling : Spelling) : List String :=
  library.names.flatMap fun name => styled [.bold] name :: (library.get name).map (formLine spelling)

variable {m : Type → Type} [Monad m] [FileAccess m]

/-- Lists the rules. -/
def runRules (config : Option String) : ExceptT CommandError m Outcome := do
  let config ← withConfig (Config.discover config)
  let library ← withConfig config.library
  return { stdout := unlines (ruleLines library config.spelling) }

end Command

end Deduction
