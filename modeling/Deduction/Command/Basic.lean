import Deduction.Config
import Deduction.Interpretation
import Deduction.Report
import Deduction.Sentence.Grammar

/-!
# Commands

What a user can ask for, what comes out of it, and what can go wrong on the way.  A command that fails shows one error
line and ends with exit code two; a proof that does not hold is no failure of the command and has exit code one.
-/

namespace Deduction

/-- What a user asks for. -/
inductive Command where
  | check (file : String) (premises : List String) (conclusion config : Option String)
  | rules (config : Option String)
  | models (sentence : String) (config : Option String)
  | init (name : String)
  deriving Repr, DecidableEq

/-- What a command shows, and its exit code. -/
structure Outcome where
  exit : Nat := 0
  stdout : String := ""
  stderr : String := ""
  deriving Repr, DecidableEq

/-- Why a command fails. -/
inductive CommandError where
  | config (error : ConfigError)
  | file (path : String) (error : FileError)
  | sentence (text : String) (mismatch : Mismatch)
  | evaluation (error : EvalError)
  | alreadyExists (path : String)
  deriving Repr, DecidableEq

/-- The wording of a command error. -/
def CommandError.message : CommandError → String
  | .config error => error.message
  | .file path error => s!"could not access `{path}`: {error.message}"
  | .sentence text mismatch => s!"`{text}` is not a sentence: {mismatch.message}"
  | .evaluation error => error.message
  | .alreadyExists path => s!"directory `{path}` already exists"

/-- The outcome of a command that fails. -/
def CommandError.outcome (e : CommandError) : Outcome :=
  { exit := 2, stderr := unlines [styled [.red, .bold] "error:" ++ " " ++ e.message] }

namespace Command

variable {m : Type → Type} [Monad m] {α : Type}

/-- A step that may fail for its configuration. -/
def withConfig (step : m (Except ConfigError α)) : ExceptT CommandError m α :=
  ExceptT.mk do return (← step).mapError .config

/-- A step that may fail at a file. -/
def withFile (path : String) (step : m (Except FileError α)) : ExceptT CommandError m α :=
  ExceptT.mk do return (← step).mapError (.file path)

/-- A sentence that the user gives, in either spelling of the connectives. -/
def readSentence (text : String) : Except CommandError Sentence :=
  (Sentence.parseTop (String.ofList (toAscii text.toList))).mapError fun e => .sentence text e.mismatch

end Command

end Deduction
