import Deduction.Files.Access
import Deduction.Files.Path
import Deduction.Rule.Builtin
import Deduction.Rule.File
import Deduction.Spelling

/-!
# Configuration

A configuration file names a rule file and the spelling for display.  It is given explicitly, or it is the nearest one
in the working directory or a directory around it.  Without one, the built-in rules and the ASCII spelling are used.
-/

namespace Deduction

/-- The name of configuration files. -/
def configFileName : String := "natded.toml"

/-- The settings of a configuration. -/
structure Config where
  rulesPath : Option String := none
  spelling : Spelling := .ascii
  deriving Repr, DecidableEq

/-- Why a configuration cannot be used. -/
inductive ConfigError where
  | notFound
  | unreadable (path : String)
  | malformed (path : String)
  | library (error : LibraryError)
  deriving Repr, DecidableEq

/-- The wording of a configuration error. -/
def ConfigError.message : ConfigError → String
  | .notFound => s!"no {configFileName} found"
  | .unreadable path => s!"could not read `{path}`"
  | .malformed path => s!"invalid config `{path}`: TOML parse error"
  | .library error => error.message

namespace Config

/-- The only setting of a section.  As a table the section may leave it out, as an array it may not. -/
def setting? {α : Type} (name : String) (decode : Toml.Value → Option α) : Toml.Value → Option (Option α)
  | .array _ [] => none
  | given => do
    let fields ← given.fields? [name]
    fields.withDefault? name (fun v => some <$> decode v) none

/-- The settings of a configuration file. -/
def ofToml? (text : String) : Option Config := do
  let entries ← Toml.parse text
  let fields ← (Toml.Value.table .header entries).fields? ["rules", "display"]
  let rulesPath ← fields.withDefault? "rules" (setting? "path" Toml.Value.string?) none
  let unicode ← fields.withDefault? "display" (setting? "unicode" Toml.Value.boolean?) none
  return ⟨rulesPath, if unicode.getD false then .unicode else .ascii⟩

variable {m : Type → Type} [Monad m] [FileAccess m]

/-- The first of the given directories that holds a configuration file, as the path of that file. -/
def findIn : List String → m (Except ConfigError String)
  | [] => return .error .notFound
  | dir :: rest => do
    let candidate := Path.join dir configFileName
    if ← FileAccess.isPresent candidate then return .ok candidate else findIn rest

/-- The nearest configuration file in the working directory or a directory around it. -/
def find : m (Except ConfigError String) := do
  findIn (Path.ancestors (← FileAccess.workingDirectory))

/-- Reads a configuration file.  The path of a rule file is relative to the directory of the configuration file. -/
def read (path : String) : m (Except ConfigError Config) := do
  match ← FileAccess.readText path with
  | .error _ => return .error (.unreadable path)
  | .ok text => match ofToml? text with
    | none => return .error (.malformed path)
    | some config =>
      let dir := (Path.parent? path).getD "."
      return .ok { config with rulesPath := config.rulesPath.map (Path.join dir) }

/-- The configuration given explicitly, or else the nearest one, or else the default. -/
def discover (explicit : Option String) : m (Except ConfigError Config) := do
  match explicit with
  | some path => read path
  | none => match ← find with
    | .ok path => read path
    | .error .notFound => return .ok {}
    | .error e => return .error e

/-- The rules of a configuration. -/
def library (config : Config) : m (Except ConfigError Library) := do
  match config.rulesPath with
  | none => return .ok Library.builtin
  | some path => match ← FileAccess.readText path with
    | .error _ => return .error (.library (.unreadable path))
    | .ok text => return (Library.parse text).mapError .library

end Config

end Deduction
