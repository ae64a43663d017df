/-
# Settings

The analysis has a fixed list of settings, each a number or a switch.  They are set from text,
can be saved and restored in the manner of a stack, and can be read from configuration files.
A failed assignment changes nothing; reading a configuration assigns the settings in the order of
their names up to the first that fails.
-/
import TraceLift.Settings.Ini
import TraceLift.Text.Numeral

namespace TraceLift

/-- The type of a setting: a number, a switch, or something that cannot be read. -/
inductive SettingType where
  | int
  | bool
  | other (name : String)
  deriving DecidableEq

/-- The value of a setting. -/
inductive SettingValue where
  | int (i : Int)
  | bool (b : Bool)
  deriving DecidableEq

/-- Values of settings by name; a setting may have none. -/
abbrev Configuration := List (String × Option SettingValue)

/-- The settings with their types and the saved configurations. -/
structure Settings where
  types : List (String × SettingType)
  /-- The values of the settings that were ever given one. -/
  values : Configuration := []
  /-- The saved configurations, the last one first. -/
  saved : List Configuration := []
  deriving DecidableEq

namespace Settings

/-- The settings that are numbers. -/
def numbers : List String :=
  ["max_iterations", "bailout_seconds", "clamp_stack_minimum", "widen_threshold"]

/-- The names of all settings, in alphabetical order. -/
def names : List String :=
  ["analytics", "bailout_seconds", "clamp_large_stacks", "clamp_stack_minimum",
    "die_on_empty_pop", "extract_functions", "final_generate_throws", "final_mutate_jumps",
    "generate_throws", "hook_up_jumps", "hook_up_stack_vars", "mark_functions",
    "max_iterations", "merge_unreachable", "mutate_blockwise", "mutate_jumps", "reinit_stacks",
    "remove_unreachable", "set_valued_ops", "skip_stack_on_overflow", "strict",
    "widen_threshold", "widen_variables"]

/-- The settings before any is set. -/
def initial : Settings :=
  { types := names.map fun n => (n, if numbers.contains n then .int else .bool) }

/-- The type of a setting. -/
def typeOf (s : Settings) (name : String) : SettingType := (s.types.lookup name).getD .bool

/-- Gives a setting another type. -/
def setType (s : Settings) (name : String) (type : SettingType) : Settings :=
  { s with types := setEntry name type s.types }

/-- The value of a setting, if it has one. -/
def value? (s : Settings) (name : String) : Option SettingValue := (s.values.lookup name).join

/-- The settings that have a value, with it. -/
def known (s : Settings) : List (String × SettingValue) :=
  names.filterMap fun n => (s.value? n).map (n, ·)

/-- Gives settings the values that a configuration has for them. -/
def update (s : Settings) (config : Configuration) : Settings :=
  { s with values := config.foldl (fun values (n, v) => setEntry n v values) s.values }

/-- Why an assignment failed, and what is logged then. -/
structure Failure where
  fault : Fault
  log : List String := []

/-- A message about an error, after which the program ends. -/
def Failure.fatal (text : String) : Failure := { fault := .exit 1, log := ["ERROR: " ++ text] }

/-- The words for a switch that is on. -/
def onWords : List String := ["1", "yes", "true", "on"]

/-- The words for a switch that is off. -/
def offWords : List String := ["0", "no", "false", "off"]

/-- The value that a text gives to a setting of a type. -/
def read (type : SettingType) (name value : String) : Except Failure SettingValue :=
  let word := Text.lower value
  match type with
  | .int =>
    match Text.readDecimal? word with
    | some i => .ok (.int i)
    | none => .error { fault := .badNumeral }
  | .bool =>
    if onWords.contains word then .ok (.bool true)
    else if offWords.contains word then .ok (.bool false)
    else
      .error (.fatal ("Cannot interpret value \"" ++ value ++ "\" as boolean for setting \"" ++ name ++
        "\""))
  | .other _ => .error (.fatal "?")

/-- Sets a setting from text; names and values may be in any case. -/
def set (s : Settings) (name value : String) : Settings × Option Failure :=
  let key := Text.lower name
  if names.contains key then
    match read (s.typeOf key) name value with
    | .ok v => (s.update [(key, some v)], none)
    | .error e => (s, some e)
  else (s, some (.fatal ("Unrecognised setting \"" ++ name ++ "\".")))

/-- Saves the current values of all settings. -/
def save (s : Settings) : Settings :=
  { s with saved := (names.map fun n => (n, s.value? n)) :: s.saved }

/-- Takes the configuration saved last and gives the settings its values. -/
def restore (s : Settings) : Settings × Option Failure :=
  match s.saved with
  | config :: saved => (update { s with saved } config, none)
  | [] => (s, some { fault := .emptyPop })

/-- What can be done to settings. -/
inductive Command where
  | save
  | restore
  /-- Sets a setting from text. -/
  | set (name value : String)
  deriving DecidableEq

/-- Carries out a command.  A command that fails leaves settings too. -/
def perform (s : Settings) : Command → Settings × Option Failure
  | .save => (s.save, none)
  | .restore => s.restore
  | .set name value => s.set name value

/-- The settings after some commands, of which any may fail. -/
def run (s : Settings) (commands : List Command) : Settings :=
  commands.foldl (fun s c => (s.perform c).1) s

/-- Sets settings from a configuration, up to the first that fails. -/
def setAll (s : Settings) (config : Ini.Config) : List String → Settings × Option Failure
  | [] => (s, none)
  | n :: ns =>
    match config.get "settings" n with
    | .error fault => (s, some { fault })
    | .ok value =>
      match s.set n value with
      | (s, none) => setAll s config ns
      | (s, some e) => (s, some e)

/-- Reads settings from the default configuration, which must exist, and from the user's, which
need not. -/
def load (s : Settings) (default user : Option String) : Settings × Option Failure :=
  match default with
  | none => (s, some { fault := .noSuchFile })
  | some text =>
    match (do
      let config ← Ini.read {} text
      match user with
      | some text => Ini.read config text
      | none => .ok config : Except Fault Ini.Config) with
    | .error fault => (s, some { fault })
    | .ok config => s.setAll config names

end Settings

end TraceLift
