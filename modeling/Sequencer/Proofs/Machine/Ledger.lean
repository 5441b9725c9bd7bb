import Mathlib.Algebra.BigOperators.Group.Multiset.Basic
import Mathlib.Tactic.Abel
import Sequencer.Machine.Turn

/-! The ledger of errors. Frames hold the errors recorded in them and those of their loops, and a
task may carry errors from one frame to another. -/

namespace Sequencer
variable {κ : Type}

def Construct.loop? : Construct κ → Option (LoopState κ)
  | .loop st => some st
  | .conditional _ => none

def pending (sts : List (LoopState κ)) : Multiset Json :=
  (sts.map fun st => (st.errors : Multiset Json)).sum

@[simp] theorem pending_nil : pending ([] : List (LoopState κ)) = 0 := rfl

@[simp] theorem pending_cons (st : LoopState κ) (sts : List (LoopState κ)) :
    pending (st :: sts) = st.errors + pending sts := rfl

@[simp] theorem pending_append (as bs : List (LoopState κ)) :
    pending (as ++ bs) = pending as + pending bs := by
  simp only [pending, List.map_append, List.sum_append]

namespace Frame

def loops (f : Frame κ) : List (LoopState κ) := f.stack.filterMap Construct.loop?

def held (f : Frame κ) : Multiset Json := (f.errors : Multiset Json) + pending f.loops

@[simp] theorem held_record (f : Frame κ) (es : List Json) :
    (f.record es).held = f.held + (es : Multiset Json) := by
  simp only [held, record, loops, ← Multiset.coe_add]
  abel

end Frame

/-- The body ran, errors were left, and the loop has an entry for them or suppresses them. -/
def LoopState.handled (st : LoopState κ) : Bool :=
  st.ran && !st.errors.isEmpty && st.loop.onError.isSome

/-- Errors on their way from one frame to another, which no frame holds. -/
def Task.carried : Task κ → Multiset Json
  | .errors values _ => values
  | .exitLoop st => st.errors
  | _ => 0

def Task.message : Task κ → List Json
  | .dispatch (.error ⟨_, .message text, _, _⟩) _ => [.string text]
  | _ => []

theorem Parked.carried_task (p : Parked) : (p.task : Task κ).carried = 0 := by cases p <;> rfl

def Sequel.carried : Sequel κ → Multiset Json
  | .task t => t.carried
  | _ => 0

namespace Machine

def held (m : Machine κ) : Multiset Json :=
  m.root.held + (m.children.map fun c => c.frame.held).sum

/-- Where a text leads in the active frame, if it does not stand for a primitive. -/
def target? (m : Machine κ) (text : String) : Option Nat :=
  (Label.clean text).bind fun l =>
    if l = "continue" ∨ l = "break" ∨ l = "end" then none else m.active.sequence.labelIndex l

/-- The loops that a task gives up with the errors they hold: a loop that exits into its handling of
errors, the loops of the active frame when it goes to a label, or when it ends with the run. -/
def dropped (m : Machine κ) : Task κ → List (LoopState κ)
  | .exitLoop st => if st.handled then [st] else []
  | .goto text => if (m.target? text).isSome then m.active.loops else []
  | .finish => m.active.loops
  | _ => []

def others (m : Machine κ) : Multiset Json :=
  match m.children with
  | [] => 0
  | _ :: cs => m.root.held + (cs.map fun c => c.frame.held).sum

theorem held_eq (m : Machine κ) : m.held = m.others + m.active.held := by
  obtain ⟨r, cs, p⟩ := m
  cases cs with
  | nil => simp [held, others, active]
  | cons c cs =>
    simp only [held, others, active, List.map_cons, List.sum_cons]
    abel

theorem held_modifyActive (m : Machine κ) (f : Frame κ → Frame κ) :
    (m.modifyActive f).held = m.others + (f m.active).held := by
  rw [held_eq, active_modifyActive]
  obtain ⟨r, cs, p⟩ := m
  cases cs <;> rfl

theorem held_modifyActive_of_eq {m : Machine κ} {f : Frame κ → Frame κ}
    (h : (f m.active).held = m.active.held) : (m.modifyActive f).held = m.held := by
  rw [held_modifyActive, h, held_eq]

@[simp] theorem held_setJump (m : Machine κ) (j : Option String) :
    (m.setJump j).held = m.held := held_modifyActive_of_eq rfl

@[simp] theorem held_recordErrors (m : Machine κ) (es : List Json) :
    (m.recordErrors es).held = m.held + (es : Multiset Json) := by
  rw [recordErrors, held_modifyActive, Frame.held_record, held_eq m]
  abel

@[simp] theorem held_enter (m : Machine κ) (role : Role) (s : Sequence κ) :
    (m.enter role s).held = m.held := by
  simp [held, enter, Frame.held, Frame.loops]

theorem held_setStack (m : Machine κ) (r : List (Construct κ)) :
    (m.setStack r).held + pending m.active.loops =
      m.held + pending (r.filterMap Construct.loop?) := by
  rw [setStack, held_modifyActive, held_eq m]
  simp only [Frame.held, Frame.loops]
  abel

theorem held_setStack_loop {m : Machine κ} {st : LoopState κ} {r : List (Construct κ)}
    (h : m.active.stack = .loop st :: r) (st' : LoopState κ) :
    (m.setStack (.loop st' :: r)).held + st.errors = m.held + st'.errors := by
  have hs := held_setStack m (.loop st' :: r)
  simp only [Frame.loops, h, List.filterMap_cons, Construct.loop?, pending_cons, ← add_assoc] at hs
  exact add_right_cancel hs

theorem held_popLoop {m : Machine κ} {st : LoopState κ} {r : List (Construct κ)}
    (h : m.active.stack = .loop st :: r) : (m.setStack r).held + st.errors = m.held := by
  have hs := held_setStack m r
  simp only [Frame.loops, h, List.filterMap_cons, Construct.loop?, pending_cons, ← add_assoc] at hs
  exact add_right_cancel hs

theorem held_popConditional {m : Machine κ} {c : Conditional κ} {r : List (Construct κ)}
    (h : m.active.stack = .conditional c :: r) : (m.setStack r).held = m.held := by
  have hs := held_setStack m r
  simp only [Frame.loops, h, List.filterMap_cons, Construct.loop?] at hs
  exact add_right_cancel hs

theorem held_addToLoop {m : Machine κ} {st : LoopState κ} {r : List (Construct κ)}
    (h : m.active.stack = .loop st :: r) (es : List Json) :
    (m.setStack (.loop { st with errors := st.errors ++ es } :: r)).held = m.held + es := by
  have hs := held_setStack_loop h { st with errors := st.errors ++ es }
  rw [← Multiset.coe_add, add_comm (st.errors : Multiset Json), ← add_assoc] at hs
  exact add_right_cancel hs

theorem held_clearStack (m : Machine κ) {f : Frame κ → Frame κ}
    (he : ∀ x, (f x).errors = x.errors) (hs : ∀ x, (f x).stack = []) :
    (m.modifyActive f).held + pending m.active.loops = m.held := by
  rw [held_modifyActive, held_eq m]
  simp only [Frame.held, Frame.loops, he, hs, List.filterMap_nil, pending_nil, add_zero, add_assoc]

@[simp] theorem held_pushConditional (m : Machine κ) (c : Conditional κ) :
    (m.pushConstruct (.conditional c)).held = m.held := held_modifyActive_of_eq rfl

@[simp] theorem held_pushLoop (m : Machine κ) (l : Loop κ) :
    (m.pushConstruct (.loop { loop := l })).held = m.held :=
  held_modifyActive_of_eq (by simp [Frame.held, Frame.loops, Construct.loop?])

theorem held_children {m : Machine κ} {c : Child κ} {cs : List (Child κ)}
    (hc : m.children = c :: cs) :
    m.held = ({ m with children := cs } : Machine κ).held + c.frame.held := by
  simp only [held, hc, List.map_cons, List.sum_cons]
  abel

theorem root_errors_modifyActive (m : Machine κ) {f : Frame κ → Frame κ}
    (hf : ∀ x, (f x).errors = x.errors) : (m.modifyActive f).root.errors = m.root.errors := by
  obtain ⟨r, cs, p⟩ := m
  cases cs with
  | nil => exact hf r
  | cons c cs => rfl

theorem root_errors_recordErrors (m : Machine κ) (es : List Json) :
    m.root.errors <+: (m.recordErrors es).root.errors := by
  obtain ⟨r, cs, p⟩ := m
  cases cs with
  | nil => exact ⟨es, rfl⟩
  | cons c cs => exact ⟨[], List.append_nil _⟩

end Machine

end Sequencer
