import Deduction.Command.Check
import Deduction.Command.Init
import Deduction.Command.Models
import Deduction.Command.Rules

/-!
# The command line

The first argument names the command; a `--` in front of it changes nothing.  Among the others, an option is followed by
its value, and after `--` there are no more options.
-/

namespace Deduction

namespace Command

/-- The options of the commands. -/
inductive Flag where
  | premise
  | conclusion
  | config
  deriving Repr, DecidableEq

/-- An option by its name. -/
def Flag.ofName? : String → Option Flag
  | "-p" | "--premise" => some .premise
  | "-g" | "--conclusion" => some .conclusion
  | "-c" | "--config" => some .config
  | _ => none

/-- Splits arguments into plain ones and options with their values. -/
def splitArguments : List String → Option (List String × List (Flag × String))
  | [] => some ([], [])
  | "--" :: rest => some (rest, [])
  | arg :: rest =>
    if arg.startsWith "-" then
      match rest with
      | value :: rest => do
        let flag ← Flag.ofName? arg
        let (plain, options) ← splitArguments rest
        return (plain, (flag, value) :: options)
      | [] => none
    else do
      let (plain, options) ← splitArguments rest
      return (arg :: plain, options)

/-- The values of an option. -/
def valuesOf (flag : Flag) (options : List (Flag × String)) : List String :=
  options.filterMap fun o => if o.1 = flag then some o.2 else none

/-- The value of an option that is given at most once. -/
def valueOf? (flag : Flag) (options : List (Flag × String)) : Option (Option String) :=
  match valuesOf flag options with
  | [] => some none
  | [value] => some (some value)
  | _ => none

/-- The options are all among the given ones. -/
def onlyFlags (flags : List Flag) (options : List (Flag × String)) : Bool :=
  options.all fun o => flags.contains o.1

/-- The command of a given name with its arguments. -/
def parseNamed (name : String) (arguments : List String) : Option Command := do
  let (plain, options) ← splitArguments arguments
  let config ← valueOf? .config options
  match name, plain with
  | "check", [file] => return .check file (valuesOf .premise options) (← valueOf? .conclusion options) config
  | "rules", [] => if onlyFlags [.config] options then some (.rules config) else none
  | "models", [sentence] => if onlyFlags [.config] options then some (.models sentence config) else none
  | "init", [name] => if options.isEmpty then some (.init name) else none
  | _, _ => none

/-- The command that the arguments ask for. -/
def parse : List String → Option Command
  | "--" :: name :: arguments => parseNamed name arguments
  | name :: arguments => parseNamed name arguments
  | [] => none

/-- How the commands are used. -/
def usage : String :=
  unlines ["Usage: natded check <file> [-p <premise>]... [-g <conclusion>] [-c <config>]",
    "       natded rules [-c <config>]", "       natded models <sentence> [-c <config>]", "       natded init <name>"]

variable {m : Type → Type} [Monad m] [FileAccess m]

/-- Runs a command. -/
def run (command : Command) : m Outcome := do
  let attempt : ExceptT CommandError m Outcome := match command with
    | .check file premises conclusion config => runCheck file premises conclusion config
    | .rules config => runRules config
    | .models sentence config => runModels sentence config
    | .init name => runInit name
  match ← attempt.run with
  | .ok outcome => return outcome
  | .error e => return e.outcome

/-- Runs the command that the arguments ask for. -/
def runArguments (arguments : List String) : m Outcome :=
  match parse arguments with
  | some command => run command
  | none => return { exit := 1, stderr := usage }

end Command

end Deduction
