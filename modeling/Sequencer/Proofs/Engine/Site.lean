import Sequencer.Proofs.Engine.Layers

/-! One context by itself. What is to be seen of it is its state and the stage of its driver; what
comes to it is a request of user code, the return of user code that its driver has called, or the
driver's own turn to move. Nothing else enters into what becomes of it. -/

namespace Sequencer
variable {κ σ ε : Type}

/-- What happens at one context; neither the context nor the number of a run is told. -/
inductive Happening (κ : Type) where
  | posted (signal : Signal) (deferred : Bool)
  | launched
  | taken (signal : Signal) (applied : Bool)
  | called (invocation : Invocation κ) (active : Option ActiveSequence)
  | reported (diagnostic : Diagnostic)
  | finished (outcome : Outcome)

/-- Signals and runs come and go with it; user code and handlers hear nothing of it. -/
def Happening.traffic : Happening κ → Bool
  | .posted _ _ | .taken _ _ | .launched => true
  | .called _ _ | .reported _ | .finished _ => false

inductive Doing (κ : Type) where
  | post (signal : Signal) (deferred : Bool)
  | launch (sequence : Sequence κ)
  /-- The code that the driver of the context has called returns. -/
  | answer (text : String)
  | panic

inductive Impulse (κ : Type) where
  /-- A run that is launched gets the number given here. -/
  | user (doing : Doing κ) (run : Nat)
  | drive

namespace Impulse

def doing? : Impulse κ → Option (Doing κ)
  | .user d _ => some d
  | .drive => none

end Impulse

def Event.place : Event κ ε → Option (ContextId × Happening κ)
  | .posted c s deferred => some (c, .posted s deferred)
  | .launched c _ => some (c, .launched)
  | .taken c s applied => some (c, .taken s applied)
  | .called c i active => some (c, .called i active)
  | .reported c d => some (c, .reported d)
  | .finished c o => some (c, .finished o)
  | .noted _ => none

def Notice.happening? : Notice → Option (Happening κ)
  | .active _ => none
  | .report d => some (.reported d)

theorem Notice.exists_report {ns : List Notice} {h : Happening κ}
    (hh : h ∈ ns.filterMap happening?) : ∃ d, h = .reported d := by
  obtain ⟨n, -, hn⟩ := List.mem_filterMap.mp hh
  cases n with
  | active a => exact absurd hn nofun
  | report d => exact ⟨d, (Option.some.inj hn).symm⟩

namespace Engine

def share {α : Type} (c : ContextId) (l : List (ContextId × α)) : List α :=
  l.filterMap fun p => if p.1 = c then some p.2 else none

def happenings (c : ContextId) (es : List (Event κ ε)) : List (Happening κ) :=
  share c (es.filterMap Event.place)

section
variable {α : Type} {c d : ContextId}

@[simp] theorem share_nil (c : ContextId) : share c ([] : List (ContextId × α)) = [] := rfl

@[simp] theorem share_append (c : ContextId) (l r : List (ContextId × α)) :
    share c (l ++ r) = share c l ++ share c r := List.filterMap_append

theorem share_map_self (c : ContextId) (l : List α) : share c (l.map (c, ·)) = l := by
  induction l with
  | nil => rfl
  | cons a l ih =>
    rw [List.map_cons, share, List.filterMap_cons, if_pos rfl]
    exact congrArg (a :: ·) ih

theorem share_map_of_ne (h : c ≠ d) (l : List α) : share c (l.map (d, ·)) = [] := by
  induction l with
  | nil => rfl
  | cons a l ih =>
    rw [List.map_cons, share, List.filterMap_cons, if_neg h.symm]
    exact ih

@[simp] theorem happenings_nil (c : ContextId) : happenings c ([] : List (Event κ ε)) = [] := rfl

@[simp] theorem happenings_append (c : ContextId) (es es' : List (Event κ ε)) :
    happenings c (es ++ es') = happenings c es ++ happenings c es' := by
  rw [happenings, List.filterMap_append, share_append]
  rfl

theorem run_applyNotices (s : Status) (ns : List Notice) : (applyNotices s ns).run = s.run := by
  induction ns generalizing s with
  | nil => rfl
  | cons n ns ih => cases n <;> exact ih _

theorem outcome_applyNotices (s : Status) (ns : List Notice) :
    (applyNotices s ns).outcome = s.outcome := by
  induction ns generalizing s with
  | nil => rfl
  | cons n ns ih => cases n <;> exact ih _

theorem applyNotices_of_reports {ns : List Notice} (h : ∀ a, .active a ∉ ns) (s : Status) :
    applyNotices s ns = s := by
  induction ns with
  | nil => rfl
  | cons n ns ih =>
    cases n with
    | active a => exact absurd (List.mem_cons_self ..) (h a)
    | report d => exact ih fun a ha => h a (List.mem_cons_of_mem _ ha)

end

end Engine

structure Site (κ : Type) where
  context : Context κ := {}
  stage : Option (Stage κ) := none

/-- A context but for the number of its run. -/
def Context.anonymous (x : Context κ) : Context κ :=
  { x with status := { x.status with run := none } }

namespace Site
open Engine

/-- The driver stands still: there is none, or it waits for user code to return. -/
def Rests (x : Site κ) : Prop := ∀ stage, x.stage = some stage → InCall stage

/-- User code and driver take turns. -/
def Admits (x : Site κ) : Impulse κ → Prop
  | .user (.post _ _) _ | .user (.launch _) _ => x.Rests
  | .user (.answer _) _ | .user .panic _ => ∃ stage, x.stage = some stage ∧ InCall stage
  | .drive => ∃ stage, x.stage = some stage ∧ ¬ InCall stage

def Tracked (x : Site κ) : Prop := x.context.Tracked x.stage

def follow (x : Context κ) (turn : Turn κ) : Site κ × List (Happening κ) :=
  let x := { x with machine := some turn.machine, status := applyNotices x.status turn.notices }
  let hs := turn.notices.filterMap Notice.happening?
  match turn.act with
  | .work t windingUp => (⟨x, some (.moving t windingUp)⟩, hs)
  | .settle => (⟨x, some .settle⟩, hs)
  | .call m =>
    (⟨x, some .calling⟩, hs ++ [.called (.operation m.operation m.params) x.status.active])
  | .resolve h ps => (⟨x, some .choosing⟩, hs ++ [.called (.resolver h ps) x.status.active])
  | .finished outcome handler =>
    let x := { x with status := { x.status with active := none, outcome := some outcome } }
    match handler with
    | none => (⟨x, some .settle⟩, hs ++ [.finished outcome])
    | some h =>
      (⟨x, some .calling⟩, hs ++ [.finished outcome, .called (outcome.invocation h) none])

def drive (x : Context κ) : Stage κ → Site κ × List (Happening κ)
  | .poll =>
    match x.queue.pop? with
    | none => (⟨{ x with driving := false }, none⟩, [])
    | some (s, q) =>
      match x.machine with
      | some _ => (⟨{ x with queue := q }, some (.moving s.task false)⟩, [.taken s true])
      | none =>
        (⟨{ x with queue := q }, some .poll⟩,
          [.taken s false, .reported (.signalDropped s.name)])
  | .moving t windingUp =>
    match x.machine with
    | some m => follow x (m.turn t windingUp)
    | none => (⟨x, some .poll⟩, [])
  | .settle =>
    match x.machine.bind (·.parked) with
    | some p =>
      (⟨{ x with machine := x.machine.map (·.unpark) }, some (.moving p.task false)⟩, [])
    | none => (⟨x, some .poll⟩, [])
  | .calling | .choosing => (⟨x, some .settle⟩, [])

def react (x : Site κ) : Impulse κ → Site κ × List (Happening κ)
  | .user (.post s deferred) _ =>
    (⟨{ x.context with queue := x.context.queue.push s deferred, driving := true },
      if x.context.driving then x.stage else some .poll⟩, [.posted s deferred])
  | .user (.launch s) run =>
    if accepts x.context then
      let y := fresh x.context s run
      (⟨{ y with queue := y.queue.push .next false, driving := true }, some .poll⟩,
        [.launched, .posted .next false])
    else (x, [.reported (.startIgnored .contextBusy)])
  | .user (.answer text) _ =>
    match x.stage with
    | some .choosing =>
      (⟨{ x.context with machine := x.context.machine.map (·.choose text) }, some .settle⟩, [])
    | _ => (⟨x.context, some .settle⟩, [])
  | .user .panic _ => (⟨{ x.context with driving := false }, none⟩, [])
  | .drive =>
    match x.stage with
    | some stage => drive x.context stage
    | none => (x, [])

section
variable {x : Context κ} {m : Machine κ} {s : Signal} {q : SignalQueue} {p : Parked}

theorem drive_poll_empty (h : x.queue.pop? = none) :
    drive x .poll = (⟨{ x with driving := false }, none⟩, []) := by simp only [drive, h]

theorem drive_poll_applied (h : x.queue.pop? = some (s, q)) (hm : x.machine = some m) :
    drive x .poll = (⟨{ x with queue := q }, some (.moving s.task false)⟩, [.taken s true]) := by
  simp only [drive, h, hm]

theorem drive_poll_dropped (h : x.queue.pop? = some (s, q)) (hm : x.machine = none) :
    drive x .poll = (⟨{ x with queue := q }, some .poll⟩,
      [.taken s false, .reported (.signalDropped s.name)]) := by
  simp only [drive, h, hm]

theorem drive_moving (hm : x.machine = some m) (t : Task κ) (windingUp : Bool) :
    drive x (.moving t windingUp) = follow x (m.turn t windingUp) := by simp only [drive, hm]

theorem drive_moving_none (hm : x.machine = none) (t : Task κ) (windingUp : Bool) :
    drive x (.moving t windingUp) = (⟨x, some .poll⟩, []) := by simp only [drive, hm]

theorem drive_settle_parked (h : x.machine.bind (·.parked) = some p) :
    drive x .settle = (⟨{ x with machine := x.machine.map (·.unpark) },
      some (.moving p.task false)⟩, []) := by simp only [drive, h]

theorem drive_settle_rest (h : x.machine.bind (·.parked) = none) :
    drive x .settle = (⟨x, some .poll⟩, []) := by simp only [drive, h]

end

theorem react_launch_of_accepts {x : Site κ} (h : accepts x.context = true) (s : Sequence κ)
    (run : Nat) : x.react (.user (.launch s) run) =
      (⟨{ fresh x.context s run with
            queue := ({} : SignalQueue).push .next false
            driving := true }, some .poll⟩, [.launched, .posted .next false]) := if_pos h

theorem react_launch_of_not_accepts {x : Site κ} (h : accepts x.context ≠ true) (s : Sequence κ)
    (run : Nat) : x.react (.user (.launch s) run) =
      (x, [.reported (.startIgnored .contextBusy)]) := if_neg h

theorem react_post_of_driving {x : Site κ} (h : x.context.driving = true) (s : Signal)
    (deferred : Bool) (run : Nat) : x.react (.user (.post s deferred) run) =
      (⟨{ x.context with queue := x.context.queue.push s deferred, driving := true }, x.stage⟩,
        [.posted s deferred]) := by
  simp only [react, h, if_true]

theorem react_post_of_not_driving {x : Site κ} (h : x.context.driving = false) (s : Signal)
    (deferred : Bool) (run : Nat) : x.react (.user (.post s deferred) run) =
      (⟨{ x.context with queue := x.context.queue.push s deferred, driving := true }, some .poll⟩,
        [.posted s deferred]) := by
  simp only [react, h, Bool.false_eq_true, if_false]

theorem react_drive {x : Site κ} {stage : Stage κ} (h : x.stage = some stage) :
    x.react .drive = drive x.context stage := by simp only [react, h]

def play (x : Site κ) : List (Impulse κ) → Site κ × List (Happening κ)
  | [] => (x, [])
  | i :: is => ((play (x.react i).1 is).1, (x.react i).2 ++ (play (x.react i).1 is).2)

theorem play_append (x : Site κ) (is js : List (Impulse κ)) :
    x.play (is ++ js) =
      (((x.play is).1.play js).1, (x.play is).2 ++ ((x.play is).1.play js).2) := by
  induction is generalizing x with
  | nil => rfl
  | cons i is ih => simp only [List.cons_append, play, ih, List.append_assoc]

theorem play_concat (x : Site κ) (is : List (Impulse κ)) (i : Impulse κ) :
    x.play (is ++ [i]) =
      (((x.play is).1.react i).1, (x.play is).2 ++ ((x.play is).1.react i).2) := by
  rw [play_append]
  simp only [play, List.append_nil]

end Site
end Sequencer
