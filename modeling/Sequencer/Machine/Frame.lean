import Sequencer.Sequence
import Sequencer.Signal

/-! Frames hold what one run of a sequence has reached: the entry to run next and the constructs
that still await an answer. -/

namespace Sequencer

/-- A loop that is being run. The errors of its control and of its body are kept apart until the
loop exits. -/
structure LoopState (κ : Type) where
  loop : Loop κ
  errors : List Json := []
  ran : Bool := false

inductive Construct (κ : Type) where
  | conditional (choice : Conditional κ)
  | loop (state : LoopState κ)

structure Frame (κ : Type) where
  sequence : Sequence κ
  cursor : Nat := 0
  /-- What awaits an answer, innermost first. -/
  stack : List (Construct κ) := []
  finished : Bool := false
  errors : List Json := []
  /-- The jump of the entry dispatched last, taken when the frame goes on. -/
  pendingJump : Option String := none

def Frame.record {κ : Type} (f : Frame κ) (values : List Json) : Frame κ :=
  { f with errors := f.errors ++ values }

inductive Role where
  /-- One iteration of the loop on top of the stack below. -/
  | loopBody
  | nested
deriving DecidableEq, Repr

structure Child (κ : Type) where
  role : Role
  frame : Frame κ

/-- The sequence that receives the next signal: its name, and how many sequences it is nested
in. -/
structure ActiveSequence where
  name : Option String
  depth : Nat
deriving DecidableEq, Repr

end Sequencer
