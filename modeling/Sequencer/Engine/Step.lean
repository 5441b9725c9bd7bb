import Sequencer.Engine.Code

/-! Driving runs. A signal is queued first; unless the context is being driven already, a driver
then applies queued signals one after the other until none is left. Drivers of several
contexts may stand on each other through the user code that they call, so what is going on is
a stack of activations. -/

namespace Sequencer

/-- What a driver is about to do. -/
inductive Stage (κ : Type) where
  | poll
  /-- Carry out a task; `windingUp` once a fault is ending the run. -/
  | moving (task : Task κ) (windingUp : Bool)
  | settle
  /-- An operation or a handler has been called. -/
  | calling
  | choosing

inductive Activation (κ σ ε : Type) where
  | code (code : Code κ σ ε)
  | driver (context : ContextId) (stage : Stage κ)

structure World (κ σ : Type) where
  contexts : Table ContextId (Context κ) := {}
  created : Nat := 0
  started : Nat := 0
  host : σ

inductive Event (κ ε : Type) where
  | posted (context : ContextId) (signal : Signal) (deferred : Bool)
  | launched (context : ContextId) (run : Nat)
  /-- A signal was taken off the queue for the run of the context, if there is one. -/
  | taken (context : ContextId) (signal : Signal) (applied : Bool)
  | called (context : ContextId) (invocation : Invocation κ) (active : Option ActiveSequence)
  | reported (context : ContextId) (diagnostic : Diagnostic)
  | finished (context : ContextId) (outcome : Outcome)
  | noted (note : ε)

namespace World
variable {κ σ : Type}

/-- A context that was never touched is a new one. -/
def context (w : World κ σ) (c : ContextId) : Context κ := (w.contexts.get? c).getD {}

def setContext (w : World κ σ) (c : ContextId) (x : Context κ) : World κ σ :=
  { w with contexts := w.contexts.insert c x }

def modify (w : World κ σ) (c : ContextId) (f : Context κ → Context κ) : World κ σ :=
  w.setContext c (f (w.context c))

theorem context_setContext (w : World κ σ) (c d : ContextId) (x : Context κ) :
    (w.setContext c x).context d = if c = d then x else w.context d := by
  simp only [context, setContext, Table.get?_insert]
  split <;> rfl

@[simp] theorem context_setContext_self (w : World κ σ) (c : ContextId) (x : Context κ) :
    (w.setContext c x).context c = x := by simp [context_setContext]

@[simp] theorem setContext_setContext (w : World κ σ) (c : ContextId) (x y : Context κ) :
    (w.setContext c x).setContext c y = w.setContext c y := by
  simp only [setContext, Table.insert_insert]

end World

structure Config (κ σ ε : Type) where
  world : World κ σ
  stack : List (Activation κ σ ε)

inductive Progress (κ σ ε : Type) where
  | more (config : Config κ σ ε) (events : List (Event κ ε))
  | returned (world : World κ σ) (answer : String)
  | panicked (world : World κ σ)

namespace Engine
variable {κ σ ε : Type}

def goOn (w : World κ σ) (stack : List (Activation κ σ ε)) (events : List (Event κ ε)) :
    Progress κ σ ε :=
  .more ⟨w, stack⟩ events

/-- Queues a signal, and drives the queue unless it is being driven. -/
def post (w : World κ σ) (c : ContextId) (s : Signal) (deferred : Bool)
    (rest : List (Activation κ σ ε)) : Progress κ σ ε :=
  let x := w.context c
  let w := w.setContext c { x with queue := x.queue.push s deferred, driving := true }
  let stack := if x.driving then rest else .driver c .poll :: rest
  goOn w stack [.posted c s deferred]

def fresh (x : Context κ) (s : Sequence κ) (run : Nat) : Context κ :=
  let m := Machine.start s
  { x with
    queue := {}
    machine := some m
    status := { run := some run, active := some m.activeSequence, outcome := none } }

/-- A context takes a new run unless it is being driven or its run is unfinished. -/
def accepts (x : Context κ) : Bool :=
  !x.driving &&
    match x.machine with
    | some m => m.isFinished
    | none => true

def launch (w : World κ σ) (c : ContextId) (s : Sequence κ) (rest : List (Activation κ σ ε)) :
    Progress κ σ ε :=
  let x := w.context c
  if accepts x then
    let run := w.started + 1
    let x := fresh x s run
    let w := { w with started := run }.setContext c
      { x with queue := x.queue.push .next false, driving := true }
    goOn w (.driver c .poll :: rest) [.launched c run, .posted c .next false]
  else goOn w rest [.reported c (.startIgnored .contextBusy)]

def request (w : World κ σ) (rest : List (Activation κ σ ε)) : Code κ σ ε → Progress κ σ ε
  | .done answer =>
    match rest with
    | [] => .returned w answer
    | .driver c .choosing :: rest =>
      let w := w.modify c fun x => { x with machine := x.machine.map (·.choose answer) }
      goOn w (.driver c .settle :: rest) []
    | .driver c _ :: rest => goOn w (.driver c .settle :: rest) []
    | .code k :: rest => goOn w (.code k :: rest) []
  | .panic =>
    match rest with
    | [] => .panicked w
    | .driver c _ :: rest =>
      goOn (w.modify c fun x => { x with driving := false }) (.code .panic :: rest) []
    | .code _ :: rest => goOn w (.code .panic :: rest) []
  | .post c s deferred k => post w c s deferred (.code k :: rest)
  | .launch c s k => launch w c s (.code k :: rest)
  | .create k => goOn { w with created := w.created + 1 } (.code (k w.created) :: rest) []
  | .inspect c k => goOn w (.code (k (w.context c).status) :: rest) []
  | .emit n k => goOn w (.code k :: rest) [.noted n]
  | .load k => goOn w (.code (k w.host) :: rest) []
  | .store s k => goOn { w with host := s } (.code k :: rest) []

def applyNotices (s : Status) : List Notice → Status
  | [] => s
  | .active a :: ns => applyNotices { s with active := some a } ns
  | .report _ :: ns => applyNotices s ns

def reports (c : ContextId) : List Notice → List (Event κ ε)
  | [] => []
  | .active _ :: ns => reports c ns
  | .report d :: ns => .reported c d :: reports c ns

def call (host : Host κ σ ε) (w : World κ σ) (c : ContextId) (i : Invocation κ) (stage : Stage κ)
    (rest : List (Activation κ σ ε)) (events : List (Event κ ε)) : Progress κ σ ε :=
  goOn w (.code (host i c) :: .driver c stage :: rest)
    (events ++ [.called c i (w.context c).status.active])

/-- Takes a context where a turn has brought its machine. -/
def follow (host : Host κ σ ε) (w : World κ σ) (c : ContextId) (turn : Turn κ)
    (rest : List (Activation κ σ ε)) : Progress κ σ ε :=
  let x := w.context c
  let x := { x with machine := some turn.machine, status := applyNotices x.status turn.notices }
  let events := reports c turn.notices
  match turn.act with
  | .work t windingUp => goOn (w.setContext c x) (.driver c (.moving t windingUp) :: rest) events
  | .settle => goOn (w.setContext c x) (.driver c .settle :: rest) events
  | .call m =>
    call host (w.setContext c x) c (.operation m.operation m.params) .calling rest events
  | .resolve h ps => call host (w.setContext c x) c (.resolver h ps) .choosing rest events
  | .finished outcome handler =>
    let w := w.setContext c
      { x with status := { x.status with active := none, outcome := some outcome } }
    let events := events ++ [.finished c outcome]
    match handler with
    | none => goOn w (.driver c .settle :: rest) events
    | some h => call host w c (outcome.invocation h) .calling rest events

def drive (host : Host κ σ ε) (w : World κ σ) (c : ContextId) (rest : List (Activation κ σ ε)) :
    Stage κ → Progress κ σ ε
  | .poll =>
    let x := w.context c
    match x.queue.pop? with
    | none => goOn (w.setContext c { x with driving := false }) rest []
    | some (s, q) =>
      let w := w.setContext c { x with queue := q }
      match x.machine with
      | some _ => goOn w (.driver c (.moving s.task false) :: rest) [.taken c s true]
      | none =>
        goOn w (.driver c .poll :: rest)
          [.taken c s false, .reported c (.signalDropped s.name)]
  | .moving t windingUp =>
    match (w.context c).machine with
    | some m => follow host w c (m.turn t windingUp) rest
    | none => goOn w (.driver c .poll :: rest) []
  | .settle =>
    let x := w.context c
    match x.machine.bind (·.parked) with
    | some p =>
      let w := w.setContext c { x with machine := x.machine.map (·.unpark) }
      goOn w (.driver c (.moving p.task false) :: rest) []
    | none => goOn w (.driver c .poll :: rest) []
  | .calling => goOn w (.driver c .settle :: rest) []
  | .choosing => goOn w (.driver c .settle :: rest) []

def step (host : Host κ σ ε) (cfg : Config κ σ ε) : Progress κ σ ε :=
  match cfg.stack with
  | [] => .returned cfg.world ""
  | .code k :: rest => request cfg.world rest k
  | .driver c stage :: rest => drive host cfg.world c rest stage

inductive Result (κ σ : Type) where
  | returned (world : World κ σ) (answer : String)
  | panicked (world : World κ σ)
  | unfinished

/-- Runs for at most `fuel` steps and collects the events, the latest first. -/
def runFor (host : Host κ σ ε) :
    Nat → Config κ σ ε → List (Event κ ε) → Result κ σ × List (Event κ ε)
  | 0, _, log => (.unfinished, log)
  | fuel + 1, cfg, log =>
    match step host cfg with
    | .returned w a => (.returned w a, log)
    | .panicked w => (.panicked w, log)
    | .more cfg es => runFor host fuel cfg (es.reverse ++ log)

end Engine
end Sequencer
