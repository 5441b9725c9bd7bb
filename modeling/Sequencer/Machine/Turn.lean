import Sequencer.Machine.Step

/-! Turns are moves with their faults dealt with. A fault ends the run: every frame hands its errors
to the root and the message of the fault becomes the last error. Should winding up a run raise
a fault of its own, the run is left as it is. -/

namespace Sequencer

inductive Act (κ : Type) where
  /-- Carry out another task; `windingUp` once a fault is ending the run. -/
  | work (task : Task κ) (windingUp : Bool)
  | settle
  | call (call : MethodCall κ)
  | resolve (resolver : κ) (params : List Json)
  | finished (outcome : Outcome) (handler : Option κ)

structure Turn (κ : Type) where
  machine : Machine κ
  notices : List Notice
  act : Act κ

namespace Machine
variable {κ : Type}

/-- The state of a run that a fault ends, just before it finishes. -/
def foldFault (m : Machine κ) (f : Fault) : Machine κ :=
  let c := m.collapse
  { c with root := c.root.record [.string f.message] }

/-- Deals with a fault. Once the run is over it is only reported. -/
def abort (m : Machine κ) (f : Fault) : Turn κ :=
  let m := { m with parked := none }
  if m.root.finished then ⟨m, [.report (.faultAfterCompletion f)], .settle⟩
  else
    ⟨m.foldFault f, .report (.runFaulted f) :: leavingNotices m.root m.children,
      .work .finish true⟩

def turn (m : Machine κ) (t : Task κ) (windingUp : Bool) : Turn κ :=
  let mv := m.step t
  match mv.sequel with
  | .task t => ⟨mv.machine, mv.notices, .work t windingUp⟩
  | .settle => ⟨mv.machine, mv.notices, .settle⟩
  | .call c => ⟨mv.machine, mv.notices, .call c⟩
  | .resolve h ps => ⟨mv.machine, mv.notices, .resolve h ps⟩
  | .finished o h => ⟨mv.machine, mv.notices, .finished o h⟩
  | .fault f =>
    if windingUp then ⟨mv.machine, mv.notices ++ [.report (.endingFailed f)], .settle⟩
    else
      let ab := mv.machine.abort f
      ⟨ab.machine, mv.notices ++ ab.notices, ab.act⟩

def unpark (m : Machine κ) : Machine κ := { m with parked := none }

def choose (m : Machine κ) (label : String) : Machine κ := { m with parked := some (.goto label) }

end Machine
end Sequencer
