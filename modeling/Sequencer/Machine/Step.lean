import Sequencer.Machine.Basic

/-! The moves of a machine. A signal sets a task; each move carries out one task and says what
comes after it: another task, a call of user code, or nothing. Going to a label and checking a
loop again are parked on the machine and taken up when nothing else is left to do. -/

namespace Sequencer

inductive Task (κ : Type) where
  /-- Take the pending jump, or run the entry at the cursor. -/
  | next
  /-- Answer yes: take a conditional's branch or run a loop's body. -/
  | proceed (primitive : String)
  /-- Answer no: take the other branch, or leave a loop or a sequence. -/
  | leave
  | complete
  | goto (label : String)
  | errors (values : List Json) (breakOnEmit : Bool)
  | finish
  /-- Run one entry; the fallback serves if the entry has no jump. -/
  | dispatch (entry : Entry κ) (fallback : Option String)
  | checkLoop
  /-- Route a loop that is already off the stack. -/
  | exitLoop (state : LoopState κ)

inductive Sequel (κ : Type) where
  | task (pending : Task κ)
  /-- Nothing is left, unless something is parked. -/
  | settle
  | call (call : MethodCall κ)
  | resolve (resolver : κ) (params : List Json)
  /-- The run is over; the handler is told. -/
  | finished (outcome : Outcome) (handler : Option κ)
  | fault (fault : Fault)

structure Move (κ : Type) where
  machine : Machine κ
  notices : List Notice := []
  sequel : Sequel κ

def Move.noticing {κ : Type} (mv : Move κ) (s : ActiveSequence) : Move κ :=
  { mv with notices := .active s :: mv.notices }

def Signal.task {κ : Type} : Signal → Task κ
  | .next => .next
  | .proceed => .proceed "continue"
  | .yes => .proceed "true"
  | .leave => .leave
  | .no => .leave
  | .goto l => .goto l
  | .errors vs => .errors vs true
  | .finish => .finish

def Parked.task {κ : Type} : Parked → Task κ
  | .checkLoop => .checkLoop
  | .goto l => .goto l

namespace Machine
variable {κ : Type}

def go (m : Machine κ) (t : Task κ) : Move κ := { machine := m, sequel := .task t }

def stop (m : Machine κ) : Move κ := { machine := m, sequel := .settle }

def raise (m : Machine κ) (f : Fault) : Move κ := { machine := m, sequel := .fault f }

def invoke (m : Machine κ) (c : MethodCall κ) : Move κ := { machine := m, sequel := .call c }

/-- Leaves something to be taken up once nothing else is left to do. -/
def park (m : Machine κ) (p : Parked) : Move κ := stop { m with parked := some p }

def advance (m : Machine κ) : Move κ :=
  match m.active.sequence.entries[m.active.cursor]? with
  | some e => (m.modifyActive fun f => { f with cursor := f.cursor + 1 }).go (.dispatch e none)
  | none => m.go .complete

def descend (m : Machine κ) (role : Role) (s : Sequence κ) : Move κ :=
  let m := m.enter role s
  (m.go .next).noticing m.activeSequence

def runBlock (m : Machine κ) : Move κ :=
  match m.active.stack with
  | .loop st :: r =>
    (m.setStack (.loop { st with ran := true } :: r)).descend .loopBody st.loop.block
  | _ => m.raise .noLoop

def checkLoop (m : Machine κ) : Move κ :=
  match m.active.stack with
  | .loop st :: _ =>
    match st.loop.control with
    | .always => m.runBlock
    | .method c => m.invoke c
  | _ => m.raise .noLoop

def exitBody (m : Machine κ) (errors : List Json) : Move κ :=
  match m.active.stack with
  | .loop st :: r =>
    (m.setStack r).go (.exitLoop { st with errors := st.errors ++ errors })
  | _ => m.raise .noLoop

/-- Hands the errors of a body that has been left to its loop, which is to be checked again. -/
def repeatBody (m : Machine κ) (errors : List Json) : Move κ :=
  match m.active.stack with
  | .loop st :: r =>
    (m.setStack (.loop { st with errors := st.errors ++ errors } :: r)).park .checkLoop
  | _ => m.raise .noLoop

def resumeAfterLoop (m : Machine κ) (l : Loop κ) : Move κ := (m.setJump l.jump).go .next

def branch (m : Machine κ) : Option (Entry κ) → Move κ
  | some e => m.go (.dispatch e none)
  | none => m.go .next

/-- Emits the errors of a nested sequence that has been left, or does something else if it left
none. -/
def emitOr (m : Machine κ) (errors : List Json) (t : Task κ) : Move κ :=
  m.go (if errors.isEmpty then t else .errors errors true)

def next (m : Machine κ) : Move κ :=
  if m.active.finished then m.raise (.finished "next")
  else
    match m.active.pendingJump with
    | some l => (m.setJump none).park (.goto l)
    | none => m.advance

def proceed (m : Machine κ) (primitive : String) : Move κ :=
  if m.active.finished then m.raise (.finished primitive)
  else
    match m.active.stack with
    | .loop _ :: _ => m.runBlock
    | .conditional c :: r => (m.setStack r).branch c.whenTrue
    | [] =>
      match m.children with
      | [] => m.raise (.noConstruct primitive)
      | c :: cs =>
        let m := { m with children := cs }
        match c.role with
        | .loopBody => (m.repeatBody c.frame.errors).noticing m.activeSequence
        | .nested =>
          ((m.recordErrors c.frame.errors).go (.proceed primitive)).noticing m.activeSequence

def leave (m : Machine κ) : Move κ :=
  if m.active.finished then m.stop
  else
    let m := m.setJump none
    match m.active.stack with
    | .conditional c :: r => (m.setStack r).branch c.whenFalse
    | .loop st :: r => (m.setStack r).go (.exitLoop st)
    | [] =>
      match m.children with
      | [] => m.go .finish
      | c :: cs =>
        let m := { m with children := cs }
        match c.role with
        | .loopBody => (m.exitBody c.frame.errors).noticing m.activeSequence
        | .nested => (m.emitOr c.frame.errors .leave).noticing m.activeSequence

def complete (m : Machine κ) : Move κ :=
  if !m.active.stack.isEmpty then m.go .leave
  else
    match m.children with
    | [] => m.go .finish
    | c :: cs =>
      let m := { m with children := cs }
      match c.role with
      | .loopBody => (m.exitBody c.frame.errors).noticing m.activeSequence
      | .nested => (m.emitOr c.frame.errors .next).noticing m.activeSequence

/-- The labels `continue`, `break` and `end` stand for primitives; any other is looked up in the
active sequence, and going to it gives up whatever awaited an answer there. -/
def goto (m : Machine κ) (text : String) : Move κ :=
  if m.active.finished then m.raise (.finished "goto")
  else
    match Label.clean text with
    | none => m.raise .emptyLabel
    | some l =>
      if l = "continue" then m.go (.proceed "continue")
      else if l = "break" then m.go .leave
      else if l = "end" then m.go .finish
      else
        match m.active.sequence.labelIndex l with
        | none => m.raise (.unknownLabel l)
        | some i =>
          (m.modifyActive fun f => { f with pendingJump := none, stack := [], cursor := i }).advance

/-- Errors emitted while a loop awaits its control belong to the loop. -/
def emit (m : Machine κ) (values : List Json) (breakOnEmit : Bool) : Move κ :=
  if m.active.finished then
    { machine := m, notices := [.report .errorsAfterCompletion], sequel := .settle }
  else
    match m.active.stack with
    | .loop st :: r =>
      (m.setStack (.loop { st with errors := st.errors ++ values } :: r)).go .leave
    | _ =>
      (m.recordErrors values).go
        (if breakOnEmit && m.active.sequence.breakOnError then .leave else .next)

/-- Every frame hands its errors to the one below it; the root's errors decide the outcome. -/
def finish (m : Machine κ) : Move κ :=
  if m.active.finished then m.stop
  else
    let m := m.modifyActive fun f => { f with finished := true, pendingJump := none, stack := [] }
    match m.children with
    | [] =>
      let outcome := Outcome.ofErrors m.root.errors
      let s := m.root.sequence
      let handler := if outcome.isSuccess then s.onSuccess else s.onError
      { machine := m, sequel := .finished outcome handler }
    | c :: cs =>
      let m := { m with children := cs }
      ((m.recordErrors c.frame.errors).go .finish).noticing m.activeSequence

def dispatch (m : Machine κ) (e : Entry κ) (fallback : Option String) : Move κ :=
  let m := m.setJump (e.jump.or fallback)
  match e with
  | .method c => m.invoke c
  | .conditional c => (m.pushConstruct (.conditional c)).invoke c.condition
  | .loop l => (m.pushConstruct (.loop { loop := l })).checkLoop
  | .goto ⟨_, .label l, _⟩ => m.park (.goto l)
  | .goto ⟨_, .resolver h ps, _⟩ => { machine := m, sequel := .resolve h ps }
  | .error ⟨_, .message text, _, breakOnEmit⟩ => m.go (.errors [.string text] breakOnEmit)
  | .error ⟨_, .method c, _, _⟩ => m.invoke c
  | .sequence s => m.descend .nested s.sequence

/-- A loop left before its body ever ran takes neither handler. -/
def exitLoop (m : Machine κ) (st : LoopState κ) : Move κ :=
  if !st.ran then
    if st.errors.isEmpty then m.resumeAfterLoop st.loop else m.go (.errors st.errors true)
  else if st.errors.isEmpty then
    match st.loop.onSuccess with
    | some e => m.go (.dispatch e st.loop.jump)
    | none => m.resumeAfterLoop st.loop
  else
    match st.loop.onError with
    | some (.handler e) => m.go (.dispatch e st.loop.jump)
    | some .suppress => m.resumeAfterLoop st.loop
    | none => m.go (.errors st.errors true)

def step (m : Machine κ) : Task κ → Move κ
  | .next => m.next
  | .proceed p => m.proceed p
  | .leave => m.leave
  | .complete => m.complete
  | .goto l => m.goto l
  | .errors vs b => m.emit vs b
  | .finish => m.finish
  | .dispatch e fallback => m.dispatch e fallback
  | .checkLoop => m.checkLoop
  | .exitLoop st => m.exitLoop st

end Machine
end Sequencer
