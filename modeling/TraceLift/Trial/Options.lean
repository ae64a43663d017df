/-
# Trials of settings

A trial of saving, changing and restoring settings and of reading them from a configuration.
-/
import TraceLift.Settings.Basic
import TraceLift.Trial.Figure

namespace TraceLift.Trial

open Figure

/-- The value that the sample configuration gives to a setting. -/
def sampleValue (name : String) : String := if Settings.numbers.contains name then "-1" else "true"

/-- A configuration that sets everything. -/
def sampleConfig : String :=
  "[settings]\n" ++ String.join (Settings.names.map fun n => n ++ " = " ++ sampleValue n ++ "\n")

/-- The settings that are switches. -/
def switches : List String := Settings.names.filter (!Settings.numbers.contains ·)

/-- Reads the sample configuration. -/
def loadSample (s : Settings) : Except Fault Settings :=
  match s.load (some sampleConfig) none with
  | (s, none) => .ok s
  | (_, some failure) => .error failure.fault

/-- Saves the settings, turns all switches on, restores the settings and reads the sample
configuration; yields how many settings had a value in between. -/
def cycleSettings (s : Settings) : Except Fault (Nat × Settings) := do
  let changed ← switches.foldlM (fun s n =>
    match s.set n "on" with
    | (s, none) => .ok s
    | (_, some failure) => .error failure.fault) s.save
  match changed.restore with
  | (restored, none) => return (changed.known.length, ← loadSample restored)
  | (_, some failure) => .error failure.fault

/-- So many cycles, one after the other. -/
def cyclesFrom (s : Settings) : Nat → Except Fault (List Figure × Settings)
  | 0 => .ok ([], s)
  | n + 1 => do
    let (k, s) ← cycleSettings s
    let (rest, s) ← cyclesFrom s n
    return (count k :: rest, s)

/-- The value of a setting. -/
def valueFigure : SettingValue → Figure
  | .int i => number i
  | .bool b => flag b

/-- Cycles through settings, and reads the sample configuration at the end. -/
def cycling (n : Nat) : Except Fault Figure := do
  let (figures, s) ← cyclesFrom Settings.initial n
  let s ← loadSample s
  return row (figures ++ [record (s.known.map fun (k, v) => (k, valueFigure v))])

end TraceLift.Trial
