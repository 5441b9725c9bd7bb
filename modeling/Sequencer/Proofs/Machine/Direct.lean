import Mathlib.Tactic.SplitIfs
import Sequencer.Proofs.Machine.Turns

/-! The direct machine. It parks nothing: where a machine leaves a jump or the check of a loop to be
taken up later, it carries it out at once, by calling itself. Move by move the two differ only
in that. -/

namespace Sequencer
variable {κ : Type}

inductive Effect (κ : Type) where
  | notice (notice : Notice)
  | operation (call : MethodCall κ)
  | resolver (resolver : κ) (params : List Json)
  | outcome (outcome : Outcome) (handler : Option κ)

/-- What the last of the effects, a call, comes to: the answer of a resolver, any text from other
code that returns, or nothing if it panics. -/
abbrev UserCode (κ : Type) := List (Effect κ) → Option String

/-- An outcome without a handler calls no user code. -/
def Effect.reply (code : UserCode κ) (past : List (Effect κ)) : Effect κ → Option String
  | .outcome _ none => some ""
  | e => code (past ++ [e])

def Act.effect? : Act κ → Option (Effect κ)
  | .call c => some (.operation c)
  | .resolve r ps => some (.resolver r ps)
  | .finished o handler => some (.outcome o handler)
  | .work _ _ | .settle => none

def Turn.shown (u : Turn κ) : List (Effect κ) := u.notices.map .notice

def Move.shown (mv : Move κ) : List (Effect κ) := mv.notices.map .notice

/-- How the application of a signal ends. A panic of user code leaves the machine where it is. -/
structure Ending (κ : Type) where
  effects : List (Effect κ)
  machine : Machine κ
  panicked : Bool

/-- The turns after a turn come to an end, given the effects up to it. -/
inductive Turn.Comes (code : UserCode κ) : List (Effect κ) → Turn κ → Ending κ → Prop
  | worked {past : List (Effect κ)} {m : Machine κ} {ns : List Notice} {t : Task κ}
    {windingUp : Bool} {e : Ending κ}
    (h : Comes code (past ++ (m.turn t windingUp).shown) (m.turn t windingUp) e) :
    Comes code past ⟨m, ns, .work t windingUp⟩ e
  | unparked {past : List (Effect κ)} {m : Machine κ} {ns : List Notice} {p : Parked}
    {e : Ending κ} (hp : m.parked = some p)
    (h : Comes code past ⟨m.unpark, [], .work p.task false⟩ e) :
    Comes code past ⟨m, ns, .settle⟩ e
  | called {past : List (Effect κ)} {m : Machine κ} {ns : List Notice} {c : MethodCall κ}
    {a : String} {e : Ending κ} (ha : Effect.reply code past (.operation c) = some a)
    (h : Comes code (past ++ [.operation c]) ⟨m, [], .settle⟩ e) :
    Comes code past ⟨m, ns, .call c⟩ e
  | resolved {past : List (Effect κ)} {m : Machine κ} {ns : List Notice} {r : κ}
    {ps : List Json} {a : String} {e : Ending κ}
    (ha : Effect.reply code past (.resolver r ps) = some a)
    (h : Comes code (past ++ [.resolver r ps]) ⟨m.choose a, [], .settle⟩ e) :
    Comes code past ⟨m, ns, .resolve r ps⟩ e
  | told {past : List (Effect κ)} {m : Machine κ} {ns : List Notice} {o : Outcome}
    {handler : Option κ} {a : String} {e : Ending κ}
    (ha : Effect.reply code past (.outcome o handler) = some a)
    (h : Comes code (past ++ [.outcome o handler]) ⟨m, [], .settle⟩ e) :
    Comes code past ⟨m, ns, .finished o handler⟩ e
  | panicked {past : List (Effect κ)} {m : Machine κ} {ns : List Notice} {act : Act κ}
    {x : Effect κ} (hx : act.effect? = some x) (hr : x.reply code past = none) :
    Comes code past ⟨m, ns, act⟩ ⟨past ++ [x], m, true⟩
  | settled {past : List (Effect κ)} {m : Machine κ} {ns : List Notice} (hp : m.parked = none) :
    Comes code past ⟨m, ns, .settle⟩ ⟨past, m, false⟩

def Machine.Applies (m : Machine κ) (code : UserCode κ) (s : Signal) (e : Ending κ) : Prop :=
  (m.receive s).Comes code [] e

namespace Machine
variable {m : Machine κ}

theorem parked_advance (h : m.parked = none) : m.advance.machine.parked = none := by
  unfold advance
  split <;> simpa [go] using h

theorem parked_runBlock (h : m.parked = none) : m.runBlock.machine.parked = none := by
  unfold runBlock
  split
  · exact (parked_setStack ..).trans h
  · exact h

theorem parked_checkLoop (h : m.parked = none) : m.checkLoop.machine.parked = none := by
  unfold checkLoop
  split
  · split
    · exact parked_runBlock h
    · exact h
  · exact h

theorem parked_exitBody (h : m.parked = none) (errors : List Json) :
    (m.exitBody errors).machine.parked = none := by
  unfold exitBody
  split
  · exact (parked_setStack ..).trans h
  · exact h

theorem parked_resumeAfterLoop (h : m.parked = none) (l : Loop κ) :
    (m.resumeAfterLoop l).machine.parked = none := (parked_setJump ..).trans h

theorem parked_branch (h : m.parked = none) (e : Option (Entry κ)) :
    (m.branch e).machine.parked = none := by
  cases e <;> exact h

theorem parked_leave (h : m.parked = none) : m.leave.machine.parked = none := by
  have hj : (m.setJump none).parked = none := (parked_setJump ..).trans h
  unfold leave
  split
  · exact h
  · dsimp only
    split
    · exact parked_branch ((parked_setStack ..).trans hj) _
    · exact (parked_setStack ..).trans hj
    · split
      · exact hj
      next c cs _ =>
        split
        · exact parked_exitBody (m := { m.setJump none with children := cs }) hj _
        · exact hj

theorem parked_complete (h : m.parked = none) : m.complete.machine.parked = none := by
  unfold complete
  split
  · exact h
  · split
    · exact h
    next c cs _ =>
      dsimp only
      split
      · exact parked_exitBody (m := { m with children := cs }) h _
      · exact h

theorem parked_goto (h : m.parked = none) (text : String) :
    (m.goto text).machine.parked = none := by
  unfold goto
  split
  · exact h
  · split
    · exact h
    · split_ifs
      · exact h
      · exact h
      · exact h
      · split
        · exact h
        · exact parked_advance ((parked_modifyActive ..).trans h)

theorem parked_emit (h : m.parked = none) (values : List Json) (breakOnEmit : Bool) :
    (m.emit values breakOnEmit).machine.parked = none := by
  unfold emit
  split
  · exact h
  · split
    · exact (parked_setStack ..).trans h
    · exact (parked_recordErrors ..).trans h

theorem parked_finish (h : m.parked = none) : m.finish.machine.parked = none := by
  unfold finish
  split
  · exact h
  · dsimp only
    split
    · exact (parked_modifyActive ..).trans h
    · simpa [go, Move.noticing] using h

theorem parked_exitLoop (h : m.parked = none) (st : LoopState κ) :
    (m.exitLoop st).machine.parked = none := by
  unfold exitLoop
  split_ifs
  · exact parked_resumeAfterLoop h _
  · exact h
  · split
    · exact h
    · exact parked_resumeAfterLoop h _
  · split
    · exact h
    · exact parked_resumeAfterLoop h _
    · exact h

end Machine

namespace Direct

def repeatBody (m : Machine κ) (errors : List Json) : Move κ :=
  match m.active.stack with
  | .loop st :: r =>
    (m.setStack (.loop { st with errors := st.errors ++ errors } :: r)).go .checkLoop
  | _ => m.raise .noLoop

def next (m : Machine κ) : Move κ :=
  if m.active.finished then m.raise (.finished "next")
  else
    match m.active.pendingJump with
    | some l => (m.setJump none).go (.goto l)
    | none => m.advance

def proceed (m : Machine κ) (primitive : String) : Move κ :=
  if m.active.finished then m.raise (.finished primitive)
  else
    match m.active.stack with
    | .loop _ :: _ => m.runBlock
    | .conditional c :: r => (m.setStack r).branch c.whenTrue
    | [] =>
      match m.children with
      | [] => m.raise (.noConstruct primitive)
      | c :: cs =>
        let m := { m with children := cs }
        match c.role with
        | .loopBody => (repeatBody m c.frame.errors).noticing m.activeSequence
        | .nested =>
          ((m.recordErrors c.frame.errors).go (.proceed primitive)).noticing m.activeSequence

def dispatch (m : Machine κ) (e : Entry κ) (fallback : Option String) : Move κ :=
  let m := m.setJump (e.jump.or fallback)
  match e with
  | .method c => m.invoke c
  | .conditional c => (m.pushConstruct (.conditional c)).invoke c.condition
  | .loop l => (m.pushConstruct (.loop { loop := l })).checkLoop
  | .goto ⟨_, .label l, _⟩ => m.go (.goto l)
  | .goto ⟨_, .resolver h ps, _⟩ => { machine := m, sequel := .resolve h ps }
  | .error ⟨_, .message text, _, breakOnEmit⟩ => m.go (.errors [.string text] breakOnEmit)
  | .error ⟨_, .method c, _, _⟩ => m.invoke c
  | .sequence s => m.descend .nested s.sequence

def step (m : Machine κ) : Task κ → Move κ
  | .next => next m
  | .proceed p => proceed m p
  | .dispatch e fallback => dispatch m e fallback
  | t => m.step t

inductive Exit where
  | returned
  | panicked
  | faulted (fault : Fault)

def Exit.ofReply : Option String → Exit
  | some _ => .returned
  | none => .panicked

/-- Carrying out a task, with all that it calls in turn, adds to the effects and leaves the machine
in another state. The answer of a resolver is gone to at once. -/
inductive Returns (code : UserCode κ) :
    List (Effect κ) → Machine κ → Task κ → List (Effect κ) → Machine κ → Exit → Prop
  | task {past es : List (Effect κ)} {m n : Machine κ} {t u : Task κ} {x : Exit}
    (hq : (step m t).sequel = .task u)
    (h : Returns code (past ++ (step m t).shown) (step m t).machine u es n x) :
    Returns code past m t es n x
  | settle {past : List (Effect κ)} {m : Machine κ} {t : Task κ}
    (hq : (step m t).sequel = .settle) :
    Returns code past m t (past ++ (step m t).shown) (step m t).machine .returned
  | call {past : List (Effect κ)} {m : Machine κ} {t : Task κ} {c : MethodCall κ}
    (hq : (step m t).sequel = .call c) :
    Returns code past m t (past ++ (step m t).shown ++ [.operation c]) (step m t).machine
      (.ofReply (Effect.reply code (past ++ (step m t).shown) (.operation c)))
  | resolve {past es : List (Effect κ)} {m n : Machine κ} {t : Task κ} {r : κ} {ps : List Json}
    {a : String} {x : Exit} (hq : (step m t).sequel = .resolve r ps)
    (ha : Effect.reply code (past ++ (step m t).shown) (.resolver r ps) = some a)
    (h : Returns code (past ++ (step m t).shown ++ [.resolver r ps]) (step m t).machine (.goto a)
      es n x) :
    Returns code past m t es n x
  | resolverPanic {past : List (Effect κ)} {m : Machine κ} {t : Task κ} {r : κ} {ps : List Json}
    (hq : (step m t).sequel = .resolve r ps)
    (ha : Effect.reply code (past ++ (step m t).shown) (.resolver r ps) = none) :
    Returns code past m t (past ++ (step m t).shown ++ [.resolver r ps]) (step m t).machine
      .panicked
  | finished {past : List (Effect κ)} {m : Machine κ} {t : Task κ} {o : Outcome}
    {handler : Option κ} (hq : (step m t).sequel = .finished o handler) :
    Returns code past m t (past ++ (step m t).shown ++ [.outcome o handler]) (step m t).machine
      (.ofReply (Effect.reply code (past ++ (step m t).shown) (.outcome o handler)))
  | fault {past : List (Effect κ)} {m : Machine κ} {t : Task κ} {f : Fault}
    (hq : (step m t).sequel = .fault f) :
    Returns code past m t (past ++ (step m t).shown) (step m t).machine (.faulted f)

def faultEffects (m : Machine κ) (f : Fault) : List (Effect κ) :=
  (.report (.runFaulted f) :: Machine.leavingNotices m.root m.children : List Notice).map .notice

/-- A fault that ends a run which is being wound up is only reported. -/
def Exit.ending (es : List (Effect κ)) (m : Machine κ) : Exit → Ending κ
  | .returned => ⟨es, m, false⟩
  | .panicked => ⟨es, m, true⟩
  | .faulted f => ⟨es ++ [.notice (.report (.endingFailed f))], m, false⟩

/-- What becomes of the application once the task of its signal has returned: a fault ends the run,
unless that is over. -/
inductive Concludes (code : UserCode κ) :
    List (Effect κ) → Machine κ → Exit → Ending κ → Prop
  | plain {es : List (Effect κ)} {m : Machine κ} {x : Exit} (hx : ∀ f, x ≠ .faulted f) :
    Concludes code es m x (x.ending es m)
  | late {es : List (Effect κ)} {m : Machine κ} {f : Fault} (hf : m.root.finished = true) :
    Concludes code es m (.faulted f)
      ⟨es ++ [.notice (.report (.faultAfterCompletion f))], m, false⟩
  | woundUp {es es' : List (Effect κ)} {m n : Machine κ} {f : Fault} {x : Exit}
    (hf : m.root.finished = false)
    (h : Returns code (es ++ faultEffects m f) (m.foldFault f) .finish es' n x) :
    Concludes code es m (.faulted f) (x.ending es' n)

def Applies (m : Machine κ) (code : UserCode κ) (s : Signal) (e : Ending κ) : Prop :=
  ∃ es n x, Returns code [] m s.task es n x ∧ Concludes code es n x e

section Moves
variable {m : Machine κ}

/-- A move beside that of the direct machine: the latter parks nothing, and where the two differ the
former parks what the latter carries out. -/
def Parallel (mv dv : Move κ) : Prop :=
  dv.machine.parked = none ∧ (mv = dv ∨ ∃ p : Parked, dv.sequel = .task p.task ∧
    mv = ⟨{ dv.machine with parked := some p }, dv.notices, .settle⟩)

theorem parallel_self {mv : Move κ} (h : mv.machine.parked = none) : Parallel mv mv := ⟨h, .inl rfl⟩

theorem parallel_park (h : m.parked = none) (p : Parked) : Parallel (m.park p) (m.go p.task) :=
  ⟨h, .inr ⟨p, rfl, rfl⟩⟩

theorem Parallel.noticing {mv dv : Move κ} (h : Parallel mv dv) (s : ActiveSequence) :
    Parallel (mv.noticing s) (dv.noticing s) := by
  obtain ⟨hp, rfl | ⟨p, hq, rfl⟩⟩ := h
  · exact parallel_self hp
  · exact ⟨hp, .inr ⟨p, hq, rfl⟩⟩

theorem parallel_repeatBody (h : m.parked = none) (errors : List Json) :
    Parallel (m.repeatBody errors) (repeatBody m errors) := by
  simp only [Machine.repeatBody, repeatBody]
  rcases m.active.stack with _ | ⟨c | st, r⟩
  · exact parallel_self h
  · exact parallel_self h
  · exact parallel_park ((Machine.parked_setStack ..).trans h) .checkLoop

theorem parallel_next (h : m.parked = none) : Parallel m.next (next m) := by
  simp only [Machine.next, next]
  split
  · exact parallel_self h
  · cases m.active.pendingJump with
    | some l => exact parallel_park ((Machine.parked_setJump ..).trans h) (.goto l)
    | none => exact parallel_self (Machine.parked_advance h)

theorem parallel_proceed (h : m.parked = none) (primitive : String) :
    Parallel (m.proceed primitive) (proceed m primitive) := by
  simp only [Machine.proceed, proceed]
  split
  · exact parallel_self h
  · rcases m.active.stack with _ | ⟨c | st, r⟩
    · rcases m.children with _ | ⟨⟨role, f⟩, cs⟩
      · exact parallel_self h
      · cases role with
        | loopBody =>
          exact (parallel_repeatBody (m := { m with children := cs }) h _).noticing _
        | nested => exact parallel_self ((Machine.parked_recordErrors ..).trans h)
    · exact parallel_self (Machine.parked_branch ((Machine.parked_setStack ..).trans h) _)
    · exact parallel_self (Machine.parked_runBlock h)

theorem parallel_dispatch (h : m.parked = none) (e : Entry κ) (fallback : Option String) :
    Parallel (m.dispatch e fallback) (dispatch m e fallback) := by
  have hj : (m.setJump (e.jump.or fallback)).parked = none := (Machine.parked_setJump ..).trans h
  simp only [Machine.dispatch, dispatch]
  rcases e with c | c | l | ⟨_, l | r, _⟩ | ⟨_, text | c, _, _⟩ | s
  · exact parallel_self hj
  · exact parallel_self ((Machine.parked_pushConstruct ..).trans hj)
  · exact parallel_self (Machine.parked_checkLoop ((Machine.parked_pushConstruct ..).trans hj))
  · exact parallel_park hj (.goto l)
  all_goals exact parallel_self hj

theorem parallel_step (h : m.parked = none) (t : Task κ) : Parallel (m.step t) (step m t) := by
  cases t with
  | next => exact parallel_next h
  | proceed primitive => exact parallel_proceed h primitive
  | leave => exact parallel_self (Machine.parked_leave h)
  | complete => exact parallel_self (Machine.parked_complete h)
  | goto l => exact parallel_self (Machine.parked_goto h l)
  | errors vs b => exact parallel_self (Machine.parked_emit h vs b)
  | finish => exact parallel_self (Machine.parked_finish h)
  | dispatch e fallback => exact parallel_dispatch h e fallback
  | checkLoop => exact parallel_self (Machine.parked_checkLoop h)
  | exitLoop st => exact parallel_self (Machine.parked_exitLoop h st)

end Moves

end Direct
end Sequencer
