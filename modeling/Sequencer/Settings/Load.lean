import Sequencer.Settings.Surroundings

/-! Loading settings. What a caller sets wins over environment variables, these win over a file,
and the file over the defaults. -/

namespace Sequencer

structure Overrides where
  path : Option String := none
  breakOnError : Option Bool := none
  filter : Option String := none

namespace Settings

def pathVariable : String := "CADENCE_CONFIG_PATH"

def defaultFile : String := "cadence.toml"

def variablesFile : String := ".env"

/-- The bottom layer, which has every key. -/
def defaults : LayerValue :=
  let d : Settings := {}
  .table [("engine", .table [("break_on_error", .bool d.engine.breakOnError)]),
    ("logging", .table [("filter", .string d.logging.filter), ("ansi", .bool d.logging.ansi)])]

/-- The file to be loaded: the one asked for, else the one that a variable names, else the
default one if it is there. -/
def locate (s : Surroundings) (vs : Variables) (asked : Option String) :
    Except SettingsError (Option String) :=
  match asked.or (Variables.get? pathVariable vs) with
  | some p =>
    match s.find p with
    | .nothing => .error (.missingFile p)
    | _ => .ok (some p)
  | none =>
    match s.find defaultFile with
    | .nothing => .ok none
    | _ => .ok (some defaultFile)

def text? (s : Surroundings) (path : String) : Option String :=
  match s.find path with
  | .file t => some t
  | .directory =>
    match (FilePath.extend? path "toml").map s.find with
    | some (.file t) => some t
    | _ => none
  | .nothing => none

def load (s : Surroundings) (o : Overrides) : Except SettingsError Settings := do
  let vs := match s.find variablesFile with
    | .file text => s.environment.loadFile text
    | _ => s.environment
  let root ← match ← locate s vs o.path with
    | none => pure defaults
    | some p =>
      match (text? s p).bind LayerValue.ofText? with
      | some rows => pure (defaults.cover rows)
      | none => .error .load
  match LayerValue.lenient.settings? (root.cover vs.layer) with
  | none => .error .decode
  | some d =>
    .ok { engine := { breakOnError := o.breakOnError.getD d.engine.breakOnError }
          logging := { d.logging with filter := o.filter.getD d.logging.filter } }

def ofFile (s : Surroundings) (path : String) : Except SettingsError Settings :=
  match s.find path with
  | .file text =>
    match (Toml.parse text).bind fun rows => Toml.strict.settings? (.table rows) with
    | some d => .ok d
    | none => .error (.unparsedFile path)
  | _ => .error (.unreadFile path)

end Settings
end Sequencer
