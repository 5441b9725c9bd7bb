import Sequencer.Proofs.Engine.Site

/-! When operations answer. Every operation posts one signal: at once, deferred, or only after its
driver has returned. A run shows the same whichever it is, call by call, since the machine waits for
that signal alone and nothing else is in the queue when it comes. -/

namespace Sequencer
variable {κ ε : Type}

/-- What operations and resolvers answer. It may depend on all calls before, the latest first. -/
structure Plan (κ : Type) where
  signal : List (Invocation κ) → κ → List Json → Signal
  label : List (Invocation κ) → κ → List Json → String

inductive Timing where
  | inside (deferred : Bool)
  /-- By an outside call, after the driver has returned. -/
  | outside (deferred : Bool)

abbrev Schedule (κ : Type) := List (Invocation κ) → κ → List Json → Timing

namespace Engine

def timed (plan : Plan κ) (sched : Schedule κ) : Host κ (List (Invocation κ)) ε
  | .operation h ps, c => .load fun past => .store (.operation h ps :: past) <|
    match sched past h ps with
    | .inside deferred => .post c (plan.signal past h ps) deferred (.done "")
    | .outside _ => .done ""
  | .resolver h ps, _ => .load fun past => .store (.resolver h ps :: past) <|
    .done (plan.label past h ps)
  | .success _, _ | .failure _ _, _ => .done ""

/-- A step, or the outside call that an operation has left to be made. -/
inductive Tick (plan : Plan κ) (sched : Schedule κ) (c : ContextId) :
    Config κ (List (Invocation κ)) ε → List (Event κ ε) → Config κ (List (Invocation κ)) ε → Prop
  | step {a b : Config κ (List (Invocation κ)) ε} {es : List (Event κ ε)}
    (h : Engine.step (timed plan sched) a = .more b es) : Tick plan sched c a es b
  | outside {a : Config κ (List (Invocation κ)) ε} {w : World κ (List (Invocation κ))}
    {answer : String} {h : κ} {ps : List Json} {past : List (Invocation κ)} {deferred : Bool}
    (hs : Engine.step (timed plan sched) a = .returned w answer)
    (hw : w.host = .operation h ps :: past) (ht : sched past h ps = .outside deferred)
    (ho : (w.context c).status.outcome = none) :
    Tick plan sched c a [] ⟨w, [.code (.post c (plan.signal past h ps) deferred (.done ""))]⟩

inductive Timed (plan : Plan κ) (sched : Schedule κ) (c : ContextId)
    (a : Config κ (List (Invocation κ)) ε) : Config κ (List (Invocation κ)) ε →
    List (Event κ ε) → Prop
  | refl : Timed plan sched c a a []
  | tick {b d : Config κ (List (Invocation κ)) ε} {log es : List (Event κ ε)}
    (h : Timed plan sched c a b log) (ht : Tick plan sched c b es d) :
    Timed plan sched c a d (log ++ es)

def outset (w : World κ (List (Invocation κ))) (c : ContextId) (s : Sequence κ) :
    Config κ (List (Invocation κ)) ε := ⟨w, [.code (.launch c s (.done ""))]⟩

def observed (c : ContextId) (es : List (Event κ ε)) : List (Happening κ) :=
  (happenings c es).filter fun h => !h.traffic

inductive Silent (plan : Plan κ) (sched : Schedule κ) (c : ContextId) :
    Config κ (List (Invocation κ)) ε → Config κ (List (Invocation κ)) ε → Prop
  | refl (a : Config κ (List (Invocation κ)) ε) : Silent plan sched c a a
  | head {a b d : Config κ (List (Invocation κ)) ε} {es : List (Event κ ε)}
    (h : Tick plan sched c a es b) (hq : observed c es = []) (rest : Silent plan sched c b d) :
    Silent plan sched c a d

/-- The world at one moment of a run, by what has changed since its launch. -/
def scene (w : World κ (List (Invocation κ))) (c : ContextId) (x : Context κ)
    (past : List (Invocation κ)) : World κ (List (Invocation κ)) :=
  { w with host := past }.setContext c x

def driven (w : World κ (List (Invocation κ))) (c : ContextId) (x : Context κ)
    (past : List (Invocation κ)) (stage : Stage κ) : Config κ (List (Invocation κ)) ε :=
  ⟨scene w c x past, [.driver c stage, .code (.done "")]⟩

/-- The run goes on by itself: no signal waits. -/
structure Poised (x : Context κ) (t : Task κ) (windingUp : Bool) : Prop where
  queue : x.queue = {}
  driving : x.driving = true
  outcome : x.status.outcome = none
  machine : ∃ m, x.machine = some m ∧ m.Live ∧ m.parked = none ∧ t.Fits m ∧
    (windingUp = true → t = .finish)

/-- Where all runs pass, whenever operations answer. -/
inductive Landmark (w : World κ (List (Invocation κ))) (c : ContextId) :
    Config κ (List (Invocation κ)) ε → Prop
  | poised {x : Context κ} {t : Task κ} {windingUp : Bool} (h : Poised x t windingUp)
    (past : List (Invocation κ)) : Landmark w c (driven w c x past (.moving t windingUp))
  | ended {x : Context κ} {o : Outcome} (h : x.status.outcome = some o)
    (past : List (Invocation κ)) : Landmark w c ⟨scene w c x past, [.code (.done "")]⟩

section
variable {plan : Plan κ} {sched : Schedule κ} {c : ContextId}
  {w : World κ (List (Invocation κ))} {a b d : Config κ (List (Invocation κ)) ε}
  {es es' log : List (Event κ ε)} {x y : Context κ} {past : List (Invocation κ)} {m : Machine κ}

@[simp] theorem observed_append (c : ContextId) (es es' : List (Event κ ε)) :
    observed c (es ++ es') = observed c es ++ observed c es' := by
  rw [observed, happenings_append, List.filter_append]
  rfl

@[simp] theorem context_scene (w : World κ (List (Invocation κ))) (c : ContextId) (x : Context κ)
    (past : List (Invocation κ)) : (scene w c x past).context c = x :=
  World.context_setContext_self ..

@[simp] theorem setContext_scene (w : World κ (List (Invocation κ))) (c : ContextId)
    (x y : Context κ) (past : List (Invocation κ)) :
    (scene w c x past).setContext c y = scene w c y past := World.setContext_setContext ..

theorem Tick.unique (h : Tick plan sched c a es b) (h' : Tick plan sched c a es' d) :
    es = es' ∧ b = d := by
  cases h with
  | step h =>
    cases h' with
    | step h' =>
      obtain ⟨rfl, rfl⟩ := Progress.more.inj (h.symm.trans h')
      exact ⟨rfl, rfl⟩
    | outside h' => exact absurd (h.symm.trans h') nofun
  | outside hs hw ht ho =>
    cases h' with
    | step h' => exact absurd (hs.symm.trans h') nofun
    | outside hs' hw' ht' ho' =>
      obtain ⟨rfl, -⟩ := Progress.returned.inj (hs.symm.trans hs')
      obtain ⟨hi, rfl⟩ := List.cons.inj (hw.symm.trans hw')
      obtain ⟨rfl, rfl⟩ := Invocation.operation.inj hi
      obtain rfl := Timing.outside.inj (ht.symm.trans ht')
      exact ⟨rfl, rfl⟩

theorem Silent.trans (h : Silent plan sched c a b) (h' : Silent plan sched c b d) :
    Silent plan sched c a d := by
  induction h with
  | refl => exact h'
  | head ht hq _ ih => exact .head ht hq (ih h')

theorem Timed.silent (h : Timed plan sched c a b log) (hs : Silent plan sched c b d) :
    ∃ log', Timed plan sched c a d log' ∧ observed c log' = observed c log := by
  induction hs generalizing log with
  | refl => exact ⟨log, h, rfl⟩
  | head ht hq _ ih =>
    obtain ⟨log', hlog', he⟩ := ih (h.tick ht)
    exact ⟨log', hlog', by rw [he, observed_append, hq, List.append_nil]⟩

theorem silent_step (es : List (Event κ ε)) (h : step (timed plan sched) a = .more b es)
    (hq : observed c es = []) : Silent plan sched c a b := .head (.step h) hq (.refl b)

@[simp] theorem observed_posted (c d : ContextId) (s : Signal) (deferred : Bool) :
    observed c [(.posted d s deferred : Event κ ε)] = [] := by
  by_cases h : d = c <;> simp [observed, happenings, share, Event.place, Happening.traffic, h]

@[simp] theorem observed_taken (c d : ContextId) (s : Signal) (applied : Bool) :
    observed c [(.taken d s applied : Event κ ε)] = [] := by
  by_cases h : d = c <;> simp [observed, happenings, share, Event.place, Happening.traffic, h]

@[simp] theorem observed_launched (c d : ContextId) (run : Nat) :
    observed c [(.launched d run : Event κ ε)] = [] := by
  by_cases h : d = c <;> simp [observed, happenings, share, Event.place, Happening.traffic, h]

theorem silent_poll {s : Signal} {q : SignalQueue} (hm : x.machine = some m)
    (hq : x.queue.pop? = some (s, q)) (hy : { x with queue := q } = y) :
    Silent plan sched c (driven w c x past .poll : Config _ _ ε)
      (driven w c y past (.moving s.task false)) := by
  subst hy
  refine silent_step [.taken c s true] ?_ (observed_taken ..)
  simp only [driven, step, drive, context_scene, hq, hm, setContext_scene]
  rfl

theorem silent_leave (hq : x.queue = {}) :
    Silent plan sched c (driven w c x past .poll : Config _ _ ε)
    ⟨scene w c { x with driving := false } past, [.code (.done "")]⟩ := by
  refine silent_step [] ?_ rfl
  simp only [driven, step, drive, context_scene, hq, setContext_scene]
  rfl

theorem silent_rest (hm : x.machine = some m) (hp : m.parked = none) :
    Silent plan sched c (driven w c x past .settle : Config _ _ ε) (driven w c x past .poll) := by
  refine silent_step [] ?_ rfl
  simp only [driven, step, drive, context_scene, hm, hp, Option.bind_some]
  rfl

theorem silent_unpark {p : Parked} (hm : x.machine = some m) (hp : m.parked = some p)
    (hy : { x with machine := some m.unpark } = y) :
    Silent plan sched c (driven w c x past .settle : Config _ _ ε)
      (driven w c y past (.moving p.task false)) := by
  subst hy
  refine silent_step [] ?_ rfl
  simp only [driven, step, drive, context_scene, hm, hp, Option.bind_some, setContext_scene]
  rfl

theorem silent_take {s : Signal} (hm : x.machine = some m) (hp : m.parked = none)
    (hq : x.queue.pop? = some (s, {})) (hy : { x with queue := {} } = y) :
    Silent plan sched c (driven w c x past .settle : Config _ _ ε)
      (driven w c y past (.moving s.task false)) :=
  (silent_rest hm hp).trans (silent_poll hm hq hy)

theorem silent_end (hm : x.machine = some m) (hp : m.parked = none) (hq : x.queue = {}) :
    Silent plan sched c (driven w c x past .settle : Config _ _ ε)
      ⟨scene w c { x with driving := false } past, [.code (.done "")]⟩ :=
  (silent_rest hm hp).trans (silent_leave hq)

def calling (plan : Plan κ) (sched : Schedule κ) (w : World κ (List (Invocation κ)))
    (c : ContextId) (x : Context κ) (past : List (Invocation κ)) (i : Invocation κ)
    (stage : Stage κ) : Config κ (List (Invocation κ)) ε :=
  ⟨scene w c x past, [.code (timed plan sched i c), .driver c stage, .code (.done "")]⟩

theorem silent_record (f : List (Invocation κ) → Code κ (List (Invocation κ)) ε) (i : Invocation κ)
    (r : List (Activation κ (List (Invocation κ)) ε)) : Silent plan sched c
      ⟨scene w c x past, .code (.load fun past => .store (i :: past) (f past)) :: r⟩
      ⟨scene w c x (i :: past), .code (f past) :: r⟩ :=
  (silent_step [] rfl rfl).trans (silent_step [] rfl rfl)

theorem silent_post (hd : x.driving = true) (s : Signal) (deferred : Bool)
    (k : Code κ (List (Invocation κ)) ε) (r : List (Activation κ (List (Invocation κ)) ε)) :
    Silent plan sched c ⟨scene w c x past, .code (.post c s deferred k) :: r⟩
      ⟨scene w c { x with queue := x.queue.push s deferred } past, .code k :: r⟩ := by
  refine silent_step [.posted c s deferred] ?_ (observed_posted ..)
  have hx : { x with queue := x.queue.push s deferred, driving := true } =
      { x with queue := x.queue.push s deferred } := by rw [← hd]
  simp only [step, request, post, context_scene, setContext_scene, hd, if_true, goOn, hx]

theorem silent_post_outside (hd : x.driving = false) (s : Signal) (deferred : Bool) :
    Silent plan sched c
      (⟨scene w c x past, [.code (.post c s deferred (.done ""))]⟩ : Config _ _ ε)
      (driven w c { x with queue := x.queue.push s deferred, driving := true } past .poll) := by
  refine silent_step [.posted c s deferred] ?_ (observed_posted ..)
  simp only [step, request, post, context_scene, setContext_scene, hd, Bool.false_eq_true, if_false]
  rfl

theorem silent_return (stage : Stage κ) (hs : stage = .calling) :
    Silent plan sched c
      (⟨scene w c x past, [.code (.done ""), .driver c stage, .code (.done "")]⟩ : Config _ _ ε)
      (driven w c x past .settle) := by
  subst hs
  exact silent_step [] rfl rfl

theorem silent_operation (hm : x.machine = some m) (hp : m.parked = none) (hq : x.queue = {})
    (hd : x.driving = true) (ho : x.status.outcome = none) (h : κ) (ps : List Json) :
    Silent plan sched c
      (calling plan sched w c x past (.operation h ps) .calling : Config _ _ ε)
      (driven w c x (.operation h ps :: past) (.moving (plan.signal past h ps).task false)) := by
  have hpop (deferred : Bool) : (x.queue.push (plan.signal past h ps) deferred).pop? =
      some (plan.signal past h ps, {}) := by rw [hq, SignalQueue.pop?_push]
  refine (silent_record ..).trans ?_
  cases ht : sched past h ps with
  | inside deferred =>
    have hx : { x with queue := {} } = x := by rw [← hq]
    refine (silent_post hd ..).trans ((silent_return _ rfl).trans ?_)
    exact silent_take hm hp (hpop deferred) hx
  | outside deferred =>
    have hx : { x with queue := {}, driving := true } = x := by rw [← hq, ← hd]
    refine (silent_return _ rfl).trans ((silent_end hm hp hq).trans ?_)
    refine .head (.outside rfl rfl ht (by rw [context_scene]; exact ho)) rfl ?_
    refine (silent_post_outside rfl ..).trans ?_
    exact silent_poll hm (hpop deferred) hx

theorem silent_resolver (hm : x.machine = some m) (hp : m.parked = none) (h : κ)
    (ps : List Json) : Silent plan sched c
      (calling plan sched w c x past (.resolver h ps) .choosing : Config _ _ ε)
      (driven w c x (.resolver h ps :: past) (.moving (.goto (plan.label past h ps)) false)) := by
  have hx : { x with machine := some (m.choose (plan.label past h ps)).unpark } = x := by
    rw [Machine.choose, Machine.unpark, ← hp, ← hm]
  refine (silent_record ..).trans (.trans ?_ (silent_unpark (m := m.choose _)
    (x := { x with machine := some (m.choose (plan.label past h ps)) }) rfl rfl hx))
  refine silent_step [] ?_ rfl
  simp only [step, request, World.modify, context_scene, setContext_scene, hm, Option.map_some]
  rfl

theorem silent_told (hm : x.machine = some m) (hp : m.parked = none) (hq : x.queue = {})
    (h : κ) (o : Outcome) : Silent plan sched c
      (calling plan sched w c x past (o.invocation h) .calling : Config _ _ ε)
      ⟨scene w c { x with driving := false } past, [.code (.done "")]⟩ := by
  refine .trans ?_ (silent_end hm hp hq)
  cases o <;> exact silent_return _ rfl

theorem step_poised (plan : Plan κ) (sched : Schedule κ) (w : World κ (List (Invocation κ)))
    (c : ContextId) (past : List (Invocation κ)) (hm : x.machine = some m) (t : Task κ)
    (windingUp : Bool) :
    step (timed plan sched) (driven w c x past (.moving t windingUp) : Config _ _ ε) =
      follow (timed plan sched) (scene w c x past) c (m.turn t windingUp) [.code (.done "")] := by
  simp only [driven, step, drive, context_scene, hm]

theorem Poised.visible {t : Task κ} {windingUp : Bool} (h : Poised x t windingUp) (plan : Plan κ)
    (w : World κ (List (Invocation κ))) (c : ContextId) (past : List (Invocation κ)) :
    ∃ (es : List (Event κ ε)) (b : Config κ (List (Invocation κ)) ε), Landmark w c b ∧
      ∀ sched, ∃ a, Tick plan sched c (driven w c x past (.moving t windingUp)) es a ∧
        Silent plan sched c a b := by
  obtain ⟨hq, hd, ho, m, hm, hl, hp, ht, hw⟩ := h
  have hu := hl.turn hp ht hw
  have hs (sched : Schedule κ) := step_poised (ε := ε) plan sched w c past hm t windingUp
  generalize m.turn t windingUp = u at hu hs
  have tick {sched : Schedule κ} {es : List (Event κ ε)} {b : Config κ (List (Invocation κ)) ε}
      (hb : follow (timed plan sched) (scene w c x past) c u [.code (.done "")] = .more b es) :
      Tick plan sched c (driven w c x past (.moving t windingUp)) es b :=
    .step ((hs sched).trans hb)
  obtain ⟨m', ns, a⟩ := u
  have ho' : (applyNotices x.status ns).outcome = none := (outcome_applyNotices ..).trans ho
  -- The context once it has taken over what the turn says.
  let y : Context κ := { x with machine := some m', status := applyNotices x.status ns }
  have hy : y.machine = some m' := rfl
  cases a with
  | work t' windingUp' =>
    obtain ⟨hl', hp', ht', hw'⟩ := hu
    have hb : Poised y t' windingUp' := ⟨hq, hd, ho', m', rfl, hl', hp', ht', hw'⟩
    refine ⟨reports c ns, _, .poised hb past, fun sched => ⟨_, tick ?_, .refl _⟩⟩
    simp only [follow, context_scene, setContext_scene]
    rfl
  | settle =>
    obtain ⟨hl', p, hp', ht'⟩ := hu
    have hb : Poised { y with machine := some m'.unpark } p.task false :=
      ⟨hq, hd, ho', m'.unpark, rfl, hl'.withParked none, rfl, Task.fits_withParked.mpr ht', nofun⟩
    refine ⟨reports c ns, _, .poised hb past, fun sched =>
      ⟨driven w c y past .settle, tick ?_, silent_unpark hy hp' rfl⟩⟩
    simp only [follow, context_scene, setContext_scene]
    rfl
  | call o =>
    obtain ⟨hl', hp'⟩ := hu
    have hb : Poised y (plan.signal past o.operation o.params).task false :=
      ⟨hq, hd, ho', m', rfl, hl', hp', Signal.task_fits .., nofun⟩
    refine ⟨reports c ns ++ [.called c (.operation o.operation o.params) y.status.active], _,
      .poised hb (.operation o.operation o.params :: past), fun sched =>
        ⟨calling plan sched w c y past (.operation o.operation o.params) .calling, tick ?_,
          silent_operation hy hp' hq hd ho' ..⟩⟩
    simp only [follow, call, context_scene, setContext_scene]
    rfl
  | resolve r ps =>
    obtain ⟨hl', hp'⟩ := hu
    have hb : Poised y (.goto (plan.label past r ps)) false :=
      ⟨hq, hd, ho', m', rfl, hl', hp', trivial, nofun⟩
    refine ⟨reports c ns ++ [.called c (.resolver r ps) y.status.active], _,
      .poised hb (.resolver r ps :: past), fun sched =>
        ⟨calling plan sched w c y past (.resolver r ps) .choosing, tick ?_,
          silent_resolver hy hp' ..⟩⟩
    simp only [follow, call, context_scene, setContext_scene]
    rfl
  | finished o handler =>
    obtain ⟨hover, -⟩ := hu
    let z : Context κ := { y with status := { y.status with active := none, outcome := some o } }
    have hb :
        Landmark (ε := ε) w c ⟨scene w c { z with driving := false } past, [.code (.done "")]⟩ :=
      .ended (x := { z with driving := false }) rfl past
    cases handler with
    | none =>
      refine ⟨reports c ns ++ [.finished c o], _, hb, fun sched =>
        ⟨driven w c z past .settle, tick ?_, silent_end rfl hover.parked hq⟩⟩
      simp only [follow, context_scene, setContext_scene]
      rfl
    | some h =>
      refine ⟨reports c ns ++ [.finished c o] ++ [.called c (o.invocation h) none], _, hb,
        fun sched =>
          ⟨calling plan sched w c z past (o.invocation h) .calling, tick ?_,
            silent_told (x := z) hy hover.parked hq h o⟩⟩
      simp only [follow, call, context_scene, setContext_scene]
      cases o <;> rfl

theorem silent_launch (plan : Plan κ) (ha : accepts (w.context c) = true) (s : Sequence κ) :
    ∃ b : Config κ (List (Invocation κ)) ε, Landmark { w with started := w.started + 1 } c b ∧
      ∀ sched, Silent plan sched c (outset w c s) b := by
  let x : Context κ := { fresh (w.context c) s (w.started + 1) with driving := true }
  let w' : World κ (List (Invocation κ)) := { w with started := w.started + 1 }
  have hb : Poised x .next false :=
    ⟨rfl, rfl, rfl, _, rfl, Machine.live_start s, rfl, trivial, nofun⟩
  refine ⟨_, .poised hb w.host, fun sched => ?_⟩
  have hpoll : Silent plan sched c
      (driven w' c { x with queue := x.queue.push .next false } w.host .poll : Config _ _ ε)
      (driven w' c x w.host (.moving .next false)) :=
    silent_poll (s := .next) rfl (SignalQueue.pop?_push .next false) rfl
  refine (silent_step ([.launched c (w.started + 1)] ++ [.posted c .next false]) ?_ ?_).trans hpoll
  · simp only [outset, step, request, launch, ha, if_true]
    rfl
  · rw [observed_append, observed_launched, observed_posted]
    rfl

theorem not_tick_of_outcome {o : Outcome} (hs : b.stack = [.code (.done "")])
    (ho : (b.world.context c).status.outcome = some o) : ¬ Tick plan sched c b es d := by
  obtain ⟨w, stack⟩ := b
  obtain rfl : stack = [.code (.done "")] := hs
  rintro (⟨hs⟩ | ⟨hs, -, -, hn⟩)
  · exact absurd hs nofun
  · obtain ⟨rfl, -⟩ := Progress.returned.inj hs
    exact absurd (hn.symm.trans ho) nofun

/-- Wherever a run is, it is on the way to a landmark that the runs of all schedules reach. -/
theorem Timed.guided {b₀ : Config κ (List (Invocation κ)) ε} (h₀ : Landmark w c b₀)
    (hs₀ : ∀ sched, Silent plan sched c a b₀) (h : Timed plan sched c a b log) :
    ∃ b', Landmark w c b' ∧ Silent plan sched c b b' ∧ ∀ sched', ∃ log',
      Timed plan sched' c a b' log' ∧ observed c log' = observed c log := by
  induction h with
  | refl => exact ⟨b₀, h₀, hs₀ sched, fun sched' => Timed.refl.silent (hs₀ sched')⟩
  | @tick b d log es _ ht ih =>
    obtain ⟨b', hb', hsilent, hall⟩ := ih
    cases hsilent with
    | head ht' hq hrest =>
      obtain ⟨rfl, rfl⟩ := ht.unique ht'
      refine ⟨b', hb', hrest, fun sched' => ?_⟩
      obtain ⟨log', hlog', he⟩ := hall sched'
      exact ⟨log', hlog', by rw [he, observed_append, hq, List.append_nil]⟩
    | refl =>
      cases hb' with
      | ended ho => exact absurd ht (not_tick_of_outcome rfl (by rw [context_scene, ho]))
      | poised hx past =>
        -- Something is seen now, and all runs go on to the next landmark.
        obtain ⟨es', b', hb', hvisible⟩ := hx.visible plan w c past
        obtain ⟨d', ht', hsilent⟩ := hvisible sched
        obtain ⟨rfl, rfl⟩ := ht.unique ht'
        refine ⟨b', hb', hsilent, fun sched' => ?_⟩
        obtain ⟨log', hlog', he⟩ := hall sched'
        obtain ⟨a', hta, hsa⟩ := hvisible sched'
        obtain ⟨log'', hlog'', he'⟩ := (hlog'.tick hta).silent hsa
        exact ⟨log'', hlog'', by rw [he', observed_append, observed_append, he]⟩

/-- Whatever is seen of a run with one schedule is seen with any other; and if the run has come to
its end, so has the other, with the same outcome in the same world. -/
theorem timing_independent {plan : Plan κ} {sched : Schedule κ} (ha : accepts (w.context c) = true)
    {s : Sequence κ} (h : Timed plan sched c (outset w c s) b log) (sched' : Schedule κ) :
    ∃ b' log', Timed plan sched' c (outset w c s) b' log' ∧ observed c log' = observed c log ∧
      ((∀ es d, ¬ Tick plan sched c b es d) →
        b' = b ∧ (∀ es d, ¬ Tick plan sched' c b es d) ∧
          ∃ o, (b.world.context c).status.outcome = some o) := by
  obtain ⟨b₀, h₀, hs₀⟩ := silent_launch plan ha s
  obtain ⟨b', hb', hsilent, hall⟩ := h.guided h₀ hs₀
  obtain ⟨log', hlog', he⟩ := hall sched'
  refine ⟨b', log', hlog', he, fun hend => ?_⟩
  cases hsilent with
  | head ht => exact absurd ht (hend _ _)
  | refl =>
    cases hb' with
    | poised hx past =>
      obtain ⟨es, d, -, hvisible⟩ := hx.visible plan _ c past
      obtain ⟨a, ht, -⟩ := hvisible sched
      exact absurd ht (hend _ _)
    | @ended x o ho past =>
      have ho' (w') : ((scene w' c x past).context c).status.outcome = some o := by
        rw [context_scene, ho]
      exact ⟨rfl, fun es d => not_tick_of_outcome rfl (ho' _), o, ho' _⟩

end

def grumbling : Plan Unit := ⟨fun _ _ _ => .errors [.null], fun _ _ _ => ""⟩

def complaint : Sequence Unit :=
  { entries := [.method { operation := () }], onError := some () }

theorem timing_independent_complaint :
    ∃ (b : Config Unit _ Unit) (log : _),
      Timed grumbling (fun _ _ _ => .outside true) 0 (outset { host := [] } 0 complaint) b log ∧
      observed 0 log = [.called (.operation () []) (some ⟨none, 0⟩), .finished (.failure [.null]),
        .called (.failure () [.null]) none] ∧
      ∀ sched, ∃ log', Timed grumbling sched 0 (outset { host := [] } 0 complaint) b log' ∧
        observed 0 log' = observed 0 log := by
  have others {b : Config Unit _ Unit} {log : _}
      (h : Timed grumbling (fun _ _ _ => .outside true) 0 (outset { host := [] } 0 complaint) b log)
      (hend : ∀ es d, ¬ Tick grumbling (fun _ _ _ => .outside true) 0 b es d)
      (sched : Schedule Unit) :
      ∃ log', Timed grumbling sched 0 (outset { host := [] } 0 complaint) b log' ∧
        observed 0 log' = observed 0 log := by
    obtain ⟨b', log', hlog', he, hb⟩ := timing_independent rfl h sched
    obtain ⟨rfl, -⟩ := hb hend
    exact ⟨log', hlog', he⟩
  have h0 : Timed grumbling (fun _ _ _ => .outside true) 0
    (outset { host := [] } 0 complaint : Config Unit _ Unit) _ _ := .refl
  -- The driver that has called the operation returns, and the signal comes after that.
  have h4 := (((h0.tick (.step rfl)).tick (.step rfl)).tick (.step rfl)).tick (.step rfl)
  have h9 := ((((h4.tick (.step rfl)).tick (.step rfl)).tick (.step rfl)).tick (.step rfl)).tick
    (.step rfl)
  have h13 := (((h9.tick (.outside rfl rfl rfl rfl)).tick (.step rfl)).tick (.step rfl)).tick
    (.step rfl)
  have h := ((((h13.tick (.step rfl)).tick (.step rfl)).tick (.step rfl)).tick (.step rfl)).tick
    (.step rfl)
  exact ⟨_, _, h, rfl, others h fun _ _ => not_tick_of_outcome rfl rfl⟩

end Engine
end Sequencer
