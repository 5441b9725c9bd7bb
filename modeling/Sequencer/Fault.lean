import Sequencer.Json.Basic

/-! The ways in which a primitive can be misused. A fault that a run raises ends the run with the
fault's message among its errors. -/

namespace Sequencer

inductive Fault where
  | finished (primitive : String)
  | noConstruct (primitive : String)
  | emptyLabel
  | unknownLabel (label : String)
  | unknownPrimitive (name : String)
  | noLoop
  | contextBusy
deriving DecidableEq, Repr

def Fault.message : Fault → String
  | .finished p => "SEQUENCE: called " ++ p ++ "() after sequence completed"
  | .noConstruct p =>
    "SEQUENCE: called " ++ p ++ "() with no conditional or loop awaiting a result"
  | .emptyLabel => "missing or invalid goto label"
  | .unknownLabel l => "missing goto label [" ++ l ++ "]"
  | .unknownPrimitive n => "unknown primitive '" ++ n ++ "'"
  | .noLoop => "SEQUENCE: no loop is awaiting on the construct stack"
  | .contextBusy => "context is already running a sequence"

end Sequencer
