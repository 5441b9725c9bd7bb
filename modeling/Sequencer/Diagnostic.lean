import Sequencer.Declaration.Error
import Sequencer.Fault
import Sequencer.Signal

/-! What the library reports besides its results. -/

namespace Sequencer

inductive Severity where
  | warn
  | error
deriving DecidableEq, Repr

inductive Diagnostic where
  | invalidEntry (error : DeclarationError)
  | invalidBranch (key : String) (error : DeclarationError)
  | conditionalJump
  | controlJump (key jump : String)
  | errorsAfterCompletion
  | signalDropped (primitive : String)
  | faultAfterCompletion (fault : Fault)
  | runFaulted (fault : Fault)
  | endingFailed (fault : Fault)
  | startIgnored (fault : Fault)
deriving DecidableEq, Repr

namespace Diagnostic

def severity : Diagnostic → Severity
  | faultAfterCompletion _ | runFaulted _ | endingFailed _ | startIgnored _ => .error
  | _ => .warn

def message : Diagnostic → String
  | invalidEntry _ => "Attempt to introduce invalid entry"
  | invalidBranch _ _ => "invalid branch dropped"
  | conditionalJump => "conditional entries cannot carry a jump; ignored"
  | controlJump _ _ => "jump is not allowed on a control clause; cleared"
  | errorsAfterCompletion => "errors() called after sequence completed; ignored"
  | signalDropped _ => "no sequence started; signal dropped"
  | faultAfterCompletion _ => "protocol fault after sequence completed"
  | runFaulted _ => "protocol fault; ending run"
  | endingFailed _ => "failed to end run after fault"
  | startIgnored _ => "start ignored"

/-- The named details of a report, as texts. -/
def fields : Diagnostic → List (String × String)
  | invalidEntry e => [("error", e.message)]
  | invalidBranch k e => [("error", e.message), ("key", k)]
  | controlJump k j => [("jump", j), ("key", k)]
  | signalDropped p => [("signal", p)]
  | faultAfterCompletion f | runFaulted f | endingFailed f | startIgnored f =>
    [("fault", f.message)]
  | conditionalJump | errorsAfterCompletion => []

end Diagnostic
end Sequencer
