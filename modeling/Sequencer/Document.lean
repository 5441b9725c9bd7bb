import Sequencer.Declaration.Normal
import Sequencer.Toml.Parser

/-! Documents describe whole sequences: an array of steps, or an object with the steps under
`steps` and settings beside them. -/

namespace Sequencer

inductive DocumentError where
  | missingSteps
  | unexpectedShape
  | unreadable
deriving DecidableEq, Repr

def DocumentError.message : DocumentError → String
  | .missingSteps => "Sequence document requires a 'steps' array"
  | .unexpectedShape => "Sequence document must be an array or an object"
  | .unreadable => "Failed to parse sequence document"

namespace Document
variable {κ : Type}

/-- The name and the error policy that an object sets; a value of the wrong type sets nothing. -/
def settings (registry : Registry κ) (ms : List (String × Json)) : Sequence κ where
  name := (Json.member? "name" ms).bind Json.asString?
  breakOnError := ((Json.member? "break-on-error" ms).bind Json.asBool?).getD true
  registry := registry

/-- Adds the steps in order; those that are refused are left out. -/
def build (s : Sequence κ) (steps : List Json) : Sequence κ × List Diagnostic :=
  s.scope.fill s steps

def ofJson (registry : Registry κ) :
    Json → Except DocumentError (Sequence κ × List Diagnostic)
  | .array steps => .ok (build (.withRegistry registry) steps)
  | .object ms =>
    match Json.member? "steps" ms with
    | some (.array steps) => .ok (build (settings registry ms) steps)
    | _ => .error .missingSteps
  | _ => .error .unexpectedShape

def ofToml (registry : Registry κ) (text : String) :
    Except DocumentError (Sequence κ × List Diagnostic) :=
  match Toml.parse text with
  | some rows => ofJson registry (Toml.Value.table rows).toJson
  | none => .error .unreadable

end Document
end Sequencer
