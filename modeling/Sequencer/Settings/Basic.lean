import Sequencer.Text.Quoted

/-! Settings of the library: the error policy of new sequences, and what is logged. -/

namespace Sequencer

structure EngineSettings where
  breakOnError : Bool := true
deriving DecidableEq, Repr

structure LoggingSettings where
  filter : String := "info"
  ansi : Bool := true
deriving DecidableEq, Repr

structure Settings where
  engine : EngineSettings := {}
  logging : LoggingSettings := {}
deriving DecidableEq, Repr

/-- Why settings cannot be had; each error names the file that it is about. -/
inductive SettingsError where
  /-- The text of a file, or the file itself, cannot be read in the layered load. -/
  | load
  | decode
  | missingFile (path : String)
  | unreadFile (path : String)
  | unparsedFile (path : String)
deriving DecidableEq, Repr

namespace SettingsError

def message : SettingsError → String
  | load => "Failed to load configuration"
  | decode => "Failed to decode configuration"
  | missingFile p => "Config file not found: " ++ Text.quote p
  | unreadFile p => "Failed to read config file: " ++ Text.quote p
  | unparsedFile p => "Failed to parse config file: " ++ Text.quote p

end SettingsError

structure Reading (ν : Type) where
  rows? : ν → Option (List (String × ν))
  items? : ν → Option (List ν)
  bool? : ν → Option Bool
  text? : ν → Option String

namespace Reading
variable {ν : Type}

def lookup (key : String) : List (String × ν) → Option ν
  | [] => none
  | (k, v) :: rows => if k = key then some v else lookup key rows

def optional {α : Type} (fallback : α) (decode : ν → Option α) : Option ν → Option α
  | none => some fallback
  | some v => decode v

/-- The values of a section under its keys: by name from a table, by position from an array. -/
def section? (r : Reading ν) (keys : List String) (v : ν) : Option (List (Option ν)) :=
  match r.rows? v with
  | some rows => some (keys.map fun k => lookup k rows)
  | none => (r.items? v).map fun items => (List.range keys.length).map fun i => items[i]?

def engine? (r : Reading ν) (v : ν) : Option EngineSettings := do
  match ← r.section? ["break_on_error"] v with
  | [breakOnError] => return { breakOnError := ← optional true r.bool? breakOnError }
  | _ => none

def logging? (r : Reading ν) (v : ν) : Option LoggingSettings := do
  match ← r.section? ["filter", "ansi"] v with
  | [filter, ansi] =>
    return { filter := ← optional "info" r.text? filter, ansi := ← optional true r.bool? ansi }
  | _ => none

def settings? (r : Reading ν) (v : ν) : Option Settings := do
  match ← r.section? ["engine", "logging"] v with
  | [engine, logging] =>
    return { engine := ← optional {} r.engine? engine, logging := ← optional {} r.logging? logging }
  | _ => none

end Reading
end Sequencer
