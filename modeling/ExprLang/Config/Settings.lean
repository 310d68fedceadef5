import ExprLang.Config.Reader
import ExprLang.Logging

/-! # Settings

The settings of the program: defaults, overridden by the settings file if there is one. Keys that the
program does not know are kept and ignored. -/

namespace ExprLang

structure Settings where
  showTokens : Bool
  showTree : Bool
  logLevel : LogLevel
  prompt : String
deriving DecidableEq, Repr

/-- Why a settings file is refused. The path is the one to show, and so are values. -/
inductive SettingsError where
  | invalidYaml (path : String)
  | notMap (path : String)
  | unsupportedSchema (version : String)
  | unknownLevel (path level : String)
deriving DecidableEq, Repr

inductive SettingsFailure where
  | refused (error : SettingsError)
  /-- The file has a defect that is not reported as one of the file. -/
  | broken (defect : Yaml.Defect)
deriving DecidableEq, Repr

namespace Settings

def schemaVersion : Nat := 1

/-- The name of the settings file that is looked for when none is given. -/
def defaultFile : String := "kon.yaml"

end Settings

def SettingsError.message : SettingsError → String
  | invalidYaml path => path ++ ": invalid YAML"
  | notMap path => path ++ ": expected a mapping at top level"
  | unsupportedSchema version =>
    "Unsupported config schema " ++ version ++ " (tool expects " ++
      Settings.schemaVersion.repr ++ ")"
  | unknownLevel path level => path ++ ": unknown log_level '" ++ level ++ "'"

namespace Settings

/-! ### Members -/

abbrev Members := List (Yaml × Yaml)

def defaults : Members :=
  [(.string "schema_version", .int schemaVersion), (.string "show_tokens", .bool false),
    (.string "show_ast", .bool false), (.string "log_level", .string "WARNING"),
    (.string "prompt", .string "> ")]

/-- The defaults, each with its new value if there is one, and then the keys that are new. -/
def override (members : Members) : Members :=
  defaults.map (fun (key, value) =>
      (key, ((members.find? fun member => member.1.same key).map Prod.snd).getD value)) ++
    members.filter fun member => !defaults.any (·.1.same member.1)

def display (value : Yaml) : Except SettingsFailure String := value.display.mapError .broken

/-- The members that a settings file asks for. A file that holds nothing true is empty. -/
def members (path : String) (contents : List Char) : Except SettingsFailure Members :=
  match Yaml.read contents with
  | .error .malformed => .error (.refused (.invalidYaml path))
  | .error (.defect d) => .error (.broken d)
  | .ok value =>
    match if value.isTrue then value else .map [] with
    | .map members => do
      let version := (Yaml.get? members "schema_version").getD (.int schemaVersion)
      if version.same (.int schemaVersion) then return override members
      else .error (.refused (.unsupportedSchema (← display version)))
    | _ => .error (.refused (.notMap path))

/-! ### Typed settings -/

/-- The upper-case letter of a letter, as far as it is an ASCII one: the dotless i has the same upper
case as the plain i. No other letter outside ASCII has the upper case of one in a level's name. -/
def upperLetter (c : Char) : Char := if c = 'ı' then 'I' else c.toUpper

/-- The level with a given name in any case. -/
def level? (name : String) : Option LogLevel :=
  LogLevel.ofName? (String.ofList (name.toList.map upperLetter))

/-- The settings that members describe; every default is among them. -/
def ofMembers (path : String) (members : Members) : Except SettingsFailure Settings := do
  let value (key : String) := (Yaml.get? members key).getD .null
  let level ← display (value "log_level")
  match level? level with
  | none => .error (.refused (.unknownLevel path level))
  | some logLevel =>
    return {
      showTokens := (value "show_tokens").isTrue
      showTree := (value "show_ast").isTrue
      logLevel := logLevel
      prompt := ← display (value "prompt") }

/-- The members in force, given the contents of the settings file if there is one. -/
def load (path : String) : Option (List Char) → Except SettingsFailure Members
  | none => .ok defaults
  | some contents => members path contents

def read (path : String) (contents : Option (List Char)) : Except SettingsFailure Settings := do
  ofMembers path (← load path contents)

end Settings

end ExprLang
