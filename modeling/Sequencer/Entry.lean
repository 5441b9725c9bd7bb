import Sequencer.Json.Basic
import Sequencer.Registry

/-! The steps of a sequence in their normal form. User code appears as handles of a type `κ`;
what a handle does is known to the host that runs the sequence. -/

namespace Sequencer

structure MethodCall (κ : Type) where
  label : Option String := none
  operation : κ
  params : List Json := []
  jump : Option String := none

inductive LoopControl (κ : Type) where
  /-- The body runs until it breaks out by itself. -/
  | always
  /-- The operation answers before every iteration whether the body runs. -/
  | method (call : MethodCall κ)

inductive GotoTarget (κ : Type) where
  | label (name : String)
  | resolver (handle : κ) (params : List Json)

structure GotoEntry (κ : Type) where
  label : Option String
  target : GotoTarget κ
  jump : Option String

inductive ErrorValue (κ : Type) where
  | message (text : String)
  | method (call : MethodCall κ)

structure ErrorEntry (κ : Type) where
  label : Option String
  error : ErrorValue κ
  jump : Option String
  breakOnEmit : Bool

mutual

/-- An ordered list of entries with a table of their labels. -/
structure Sequence (κ : Type) where
  name : Option String := none
  entries : List (Entry κ) := []
  labels : Table String Nat := {}
  breakOnError : Bool := true
  registry : Registry κ := {}
  onSuccess : Option κ := none
  onError : Option κ := none

structure Conditional (κ : Type) where
  label : Option String
  condition : MethodCall κ
  whenTrue : Option (Entry κ)
  whenFalse : Option (Entry κ)

structure Loop (κ : Type) where
  label : Option String
  control : LoopControl κ
  block : Sequence κ
  onSuccess : Option (Entry κ)
  onError : Option (LoopFailure κ)
  jump : Option String

inductive LoopFailure (κ : Type) where
  | suppress
  | handler (entry : Entry κ)

structure SequenceEntry (κ : Type) where
  label : Option String
  sequence : Sequence κ
  jump : Option String

inductive Entry (κ : Type) where
  | method (call : MethodCall κ)
  | conditional (step : Conditional κ)
  | loop (step : Loop κ)
  | goto (step : GotoEntry κ)
  | error (step : ErrorEntry κ)
  | sequence (step : SequenceEntry κ)

end

namespace Entry
variable {κ : Type}

def label : Entry κ → Option String
  | method c => c.label
  | conditional c => c.label
  | loop l => l.label
  | goto g => g.label
  | error e => e.label
  | sequence s => s.label

/-- The label to go to once the entry's own handling is complete. -/
def jump : Entry κ → Option String
  | method c => c.jump
  | conditional _ => none
  | loop l => l.jump
  | goto g => g.jump
  | error e => e.jump
  | sequence s => s.jump

def kind : Entry κ → String
  | method _ => "method"
  | conditional _ => "if"
  | loop _ => "loop"
  | goto _ => "goto"
  | error _ => "error"
  | sequence _ => "sequence"

end Entry
end Sequencer
