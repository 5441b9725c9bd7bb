import Sequencer.Diagnostic
import Sequencer.Machine.Frame

/-! The state of one run. The root frame stays for the whole run; loop bodies and nested sequences
stand above it, and the innermost frame is the active one. -/

namespace Sequencer

/-- What is left to do when a chain of internal moves is broken off, so that loops and jumps
iterate. -/
inductive Parked where
  | checkLoop
  | goto (label : String)
deriving DecidableEq, Repr

structure Machine (κ : Type) where
  root : Frame κ
  /-- The frames above the root, innermost first. -/
  children : List (Child κ) := []
  parked : Option Parked := none

inductive Notice where
  | active (sequence : ActiveSequence)
  | report (diagnostic : Diagnostic)
deriving DecidableEq, Repr

namespace Machine
variable {κ : Type}

def start (s : Sequence κ) : Machine κ := { root := { sequence := s } }

def isFinished (m : Machine κ) : Bool := m.root.finished

def active (m : Machine κ) : Frame κ :=
  match m.children with
  | [] => m.root
  | c :: _ => c.frame

def modifyActive (m : Machine κ) (f : Frame κ → Frame κ) : Machine κ :=
  match m.children with
  | [] => { m with root := f m.root }
  | c :: cs => { m with children := { c with frame := f c.frame } :: cs }

def activeSequence (m : Machine κ) : ActiveSequence :=
  ⟨m.active.sequence.name, m.children.length⟩

def setStack (m : Machine κ) (stack : List (Construct κ)) : Machine κ :=
  m.modifyActive fun f => { f with stack }

def pushConstruct (m : Machine κ) (c : Construct κ) : Machine κ :=
  m.modifyActive fun f => { f with stack := c :: f.stack }

def setJump (m : Machine κ) (jump : Option String) : Machine κ :=
  m.modifyActive fun f => { f with pendingJump := jump }

def recordErrors (m : Machine κ) (values : List Json) : Machine κ :=
  m.modifyActive (·.record values)

def enter (m : Machine κ) (role : Role) (s : Sequence κ) : Machine κ :=
  { m with children := ⟨role, { sequence := s }⟩ :: m.children }

/-- Notices of every frame that becomes active while all children are left. -/
def leavingNotices (root : Frame κ) : List (Child κ) → List Notice
  | [] => []
  | _ :: cs => .active (activeSequence { root, children := cs }) :: leavingNotices root cs

/-- Leaves all children and hands their errors to the root, outermost first. -/
def collapse (m : Machine κ) : Machine κ :=
  { m with
    root := m.root.record (m.children.reverse.flatMap fun c => c.frame.errors)
    children := [] }

@[simp] theorem length_children_modifyActive (m : Machine κ) (f : Frame κ → Frame κ) :
    (m.modifyActive f).children.length = m.children.length := by
  obtain ⟨r, cs, p⟩ := m; cases cs <;> rfl

@[simp] theorem active_modifyActive (m : Machine κ) (f : Frame κ → Frame κ) :
    (m.modifyActive f).active = f m.active := by
  obtain ⟨r, cs, p⟩ := m; cases cs <;> rfl

@[simp] theorem parked_modifyActive (m : Machine κ) (f : Frame κ → Frame κ) :
    (m.modifyActive f).parked = m.parked := by
  obtain ⟨r, cs, p⟩ := m; cases cs <;> rfl

theorem activeSequence_modifyActive (m : Machine κ) {f : Frame κ → Frame κ}
    (hs : ∀ x, (f x).sequence = x.sequence) :
    (m.modifyActive f).activeSequence = m.activeSequence := by
  simp only [activeSequence, active_modifyActive, length_children_modifyActive, hs]

@[simp] theorem activeSequence_setStack (m : Machine κ) (r : List (Construct κ)) :
    (m.setStack r).activeSequence = m.activeSequence := activeSequence_modifyActive _ fun _ => rfl

@[simp] theorem activeSequence_pushConstruct (m : Machine κ) (c : Construct κ) :
    (m.pushConstruct c).activeSequence = m.activeSequence :=
  activeSequence_modifyActive _ fun _ => rfl

@[simp] theorem activeSequence_setJump (m : Machine κ) (j : Option String) :
    (m.setJump j).activeSequence = m.activeSequence := activeSequence_modifyActive _ fun _ => rfl

@[simp] theorem activeSequence_recordErrors (m : Machine κ) (es : List Json) :
    (m.recordErrors es).activeSequence = m.activeSequence :=
  activeSequence_modifyActive _ fun _ => rfl

@[simp] theorem parked_setStack (m : Machine κ) (r : List (Construct κ)) :
    (m.setStack r).parked = m.parked := parked_modifyActive ..

@[simp] theorem parked_pushConstruct (m : Machine κ) (c : Construct κ) :
    (m.pushConstruct c).parked = m.parked := parked_modifyActive ..

@[simp] theorem parked_setJump (m : Machine κ) (j : Option String) :
    (m.setJump j).parked = m.parked := parked_modifyActive ..

@[simp] theorem parked_recordErrors (m : Machine κ) (es : List Json) :
    (m.recordErrors es).parked = m.parked := parked_modifyActive ..

@[simp] theorem active_setStack (m : Machine κ) (r : List (Construct κ)) :
    (m.setStack r).active = { m.active with stack := r } := active_modifyActive ..

@[simp] theorem active_pushConstruct (m : Machine κ) (c : Construct κ) :
    (m.pushConstruct c).active = { m.active with stack := c :: m.active.stack } :=
  active_modifyActive ..

@[simp] theorem active_setJump (m : Machine κ) (j : Option String) :
    (m.setJump j).active = { m.active with pendingJump := j } := active_modifyActive ..

@[simp] theorem active_recordErrors (m : Machine κ) (es : List Json) :
    (m.recordErrors es).active = m.active.record es := active_modifyActive ..

end Machine
end Sequencer
