import Sequencer.Machine.Turn

/-! Contexts and the user code that acts on them. A context carries at most one run at a time;
user code is a tree of the requests that it makes, each with what follows the reply. -/

namespace Sequencer

abbrev ContextId := Nat

/-- Signals that wait to be applied. A deferred signal waits for every immediate one. -/
structure SignalQueue where
  immediate : List Signal := []
  deferred : List Signal := []

namespace SignalQueue

def push (q : SignalQueue) (s : Signal) (deferred : Bool) : SignalQueue :=
  if deferred then { q with deferred := q.deferred ++ [s] }
  else { q with immediate := q.immediate ++ [s] }

def pop? (q : SignalQueue) : Option (Signal × SignalQueue) :=
  match q.immediate with
  | s :: r => some (s, { q with immediate := r })
  | [] =>
    match q.deferred with
    | s :: r => some (s, { q with deferred := r })
    | [] => none

theorem pop?_push (s : Signal) (deferred : Bool) :
    (({} : SignalQueue).push s deferred).pop? = some (s, {}) := by
  cases deferred <;> rfl

end SignalQueue

structure Status where
  /-- The number of the run, fresh for every run. -/
  run : Option Nat := none
  active : Option ActiveSequence := none
  outcome : Option Outcome := none

namespace Status

def isFinished (s : Status) : Bool := s.outcome.isSome

def hasErrors (s : Status) : Bool :=
  match s.outcome with
  | some o => !o.isSuccess
  | none => false

def errors (s : Status) : List Json :=
  match s.outcome with
  | some o => o.errors
  | none => []

end Status

structure Context (κ : Type) where
  queue : SignalQueue := {}
  driving : Bool := false
  machine : Option (Machine κ) := none
  status : Status := {}

/-- The ways in which user code is called, always on behalf of one context. -/
inductive Invocation (κ : Type) where
  | operation (handle : κ) (params : List Json)
  | resolver (handle : κ) (params : List Json)
  | success (handle : κ)
  | failure (handle : κ) (errors : List Json)

/-- How a handler is told of an outcome. -/
def Outcome.invocation {κ : Type} (o : Outcome) (handler : κ) : Invocation κ :=
  match o with
  | .success => .success handler
  | .failure es => .failure handler es

/-- User code over a state of type `σ`, which may write down notes of type `ε`. -/
inductive Code (κ σ ε : Type) where
  /-- Returns; only the answer of a resolver is looked at. -/
  | done (answer : String)
  | panic
  | post (context : ContextId) (signal : Signal) (deferred : Bool) (rest : Code κ σ ε)
  | launch (context : ContextId) (sequence : Sequence κ) (rest : Code κ σ ε)
  | create (rest : ContextId → Code κ σ ε)
  | inspect (context : ContextId) (rest : Status → Code κ σ ε)
  | emit (note : ε) (rest : Code κ σ ε)
  | load (rest : σ → Code κ σ ε)
  | store (state : σ) (rest : Code κ σ ε)

abbrev Host (κ σ ε : Type) := Invocation κ → ContextId → Code κ σ ε

end Sequencer
