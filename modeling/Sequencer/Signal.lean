import Sequencer.Fault
import Sequencer.Text.Blank

/-! Signals are what operations say to the sequence that called them; an outcome is how a whole
run ended. -/

namespace Sequencer

/-- A request to the active sequence to go on. -/
inductive Signal where
  | next
  | proceed
  | leave
  | yes
  | no
  | goto (label : String)
  | errors (values : List Json)
  | finish
deriving Repr

inductive Outcome where
  | success
  | failure (errors : List Json)
deriving Repr

namespace Signal

def name : Signal → String
  | .next => "next"
  | .proceed => "continue"
  | .leave => "break"
  | .yes => "true"
  | .no => "false"
  | .goto _ => "goto"
  | .errors _ => "errors"
  | .finish => "end"

def plain? (primitive : String) : Option Signal :=
  if primitive = "next" then some .next
  else if primitive = "continue" then some .proceed
  else if primitive = "break" then some .leave
  else if primitive = "true" then some .yes
  else if primitive = "false" then some .no
  else if primitive = "end" then some .finish
  else none

def parse (text : String) : Except Fault Signal :=
  let primitive := Text.trim text
  match plain? primitive with
  | some s => .ok s
  | none => .error (.unknownPrimitive primitive)

/-- The list of errors that an emitted value stands for: an array is one error for each item and
null is none. -/
def errorValues : Json → List Json
  | .null => []
  | .array items => items
  | v => [v]

end Signal

namespace Outcome

/-- A run that collected no errors is a success. -/
def ofErrors : List Json → Outcome
  | [] => .success
  | e :: es => .failure (e :: es)

def isSuccess : Outcome → Bool
  | .success => true
  | .failure _ => false

def errors : Outcome → List Json
  | .success => []
  | .failure es => es

@[simp] theorem errors_ofErrors (es : List Json) : (ofErrors es).errors = es := by
  cases es <;> rfl

theorem isSuccess_ofErrors (es : List Json) : (ofErrors es).isSuccess = es.isEmpty := by
  cases es <;> rfl

end Outcome
end Sequencer
