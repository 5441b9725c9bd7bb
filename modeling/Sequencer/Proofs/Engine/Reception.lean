import Sequencer.Proofs.Engine.Between
import Sequencer.Proofs.Engine.Panics

/-! Reception. The active sequence that user code is shown is the innermost frame of the run, and an
operation is shown the frame that takes the next signal of its context. A resolver is shown the
frame in which its answer is gone to; what it posts waits until that is done. -/

namespace Sequencer
variable {κ σ ε : Type}

/-- The innermost frame of a run that goes on. -/
def Context.receiver? (x : Context κ) : Option ActiveSequence :=
  match x.machine with
  | none => none
  | some m => if m.isFinished then none else some ⟨m.active.sequence.name, m.children.length⟩

/-- The stage at which a driver awaits the call. Handlers are called when the run is over. -/
def Invocation.stage? : Invocation κ → Option (Stage κ)
  | .operation _ _ => some .calling
  | .resolver _ _ => some .choosing
  | .success _ | .failure _ _ => none

namespace Site
open Engine

section
variable {x : Site κ} {i : Impulse κ}

theorem follow_of_called {inv : Invocation κ} {active : Option ActiveSequence} (hi : x.Admits i)
    (h : .called inv active ∈ (x.react i).2) :
    ∃ m t windingUp, x.context.machine = some m ∧ x.stage = some (.moving t windingUp) ∧
      x.react i = follow x.context (m.turn t windingUp) := by
  cases i with
  | user doing run =>
    refine absurd h ?_
    cases doing with
    | post s deferred => simp [Site.react]
    | panic => exact List.not_mem_nil
    | launch s =>
      by_cases ha : accepts x.context = true
      · simp [react_launch_of_accepts ha]
      · simp [react_launch_of_not_accepts ha]
    | answer text =>
      unfold Site.react
      dsimp only
      split <;> exact List.not_mem_nil
  | drive =>
    obtain ⟨stage, hs, -⟩ := hi
    rw [react_drive hs] at h ⊢
    cases stage with
    | calling | choosing => exact absurd h List.not_mem_nil
    | settle =>
      refine absurd h ?_
      unfold drive
      dsimp only
      split <;> exact List.not_mem_nil
    | poll =>
      refine absurd h ?_
      unfold drive
      dsimp only
      split
      · exact List.not_mem_nil
      · split <;> simp
    | moving t windingUp =>
      cases hm : x.context.machine with
      | none =>
        rw [drive_moving_none hm] at h
        exact absurd h List.not_mem_nil
      | some m => exact ⟨m, t, windingUp, rfl, hs, drive_moving hm t windingUp⟩

theorem machine_react_iff (hx : x.Tracked) (hi : x.Admits i) :
    (x.react i).1.context.machine.isSome = true ↔
      x.context.machine.isSome = true ∨ .launched ∈ (x.react i).2 := by
  have ht := traffic_react hx hi
  by_cases hl : .launched ∈ (x.react i).2
  · obtain ⟨s, run, rfl, ha⟩ := ht.launch_of_launched hl
    simp [react_launch_of_accepts ha, fresh]
  · rw [ht.machine hl, or_iff_left hl]

theorem status_react_of_new (hm : x.context.machine = none) (hl : .launched ∉ (x.react i).2) :
    (x.react i).1.context.status = x.context.status := by
  cases i with
  | user doing run =>
    cases doing with
    | post | panic => rfl
    | launch s =>
      by_cases ha : accepts x.context = true
      · rw [react_launch_of_accepts ha] at hl
        exact absurd (List.mem_cons_self ..) hl
      · rw [react_launch_of_not_accepts ha]
    | answer text =>
      unfold Site.react
      dsimp only
      split <;> rfl
  | drive =>
    unfold Site.react
    dsimp only
    split
    next stage hs =>
      cases stage with
      | calling | choosing => rfl
      | moving t windingUp => rw [drive_moving_none hm]
      | settle =>
        rw [drive_settle_rest (by rw [hm]; rfl)]
      | poll =>
        cases hq : x.context.queue.pop? with
        | none => rw [drive_poll_empty hq]
        | some p => rw [drive_poll_dropped hq hm]
    next => rfl

theorem follow_called {y : Context κ} {u : Turn κ} {inv : Invocation κ} {stage : Stage κ}
    {active : Option ActiveSequence} (hs : inv.stage? = some stage)
    (h : .called inv active ∈ (follow y u).2) :
    ((∃ c, u.act = .call c) ∨ ∃ r ps, u.act = .resolve r ps) ∧
      (follow y u).1.stage = some stage := by
  have hn : .called inv active ∉ u.notices.filterMap Notice.happening? := fun hh =>
    happening?_not_ofRun hh trivial
  unfold follow at h ⊢
  cases ha : u.act with
  | work | settle =>
    rw [ha] at h
    exact absurd h hn
  | call c =>
    rw [ha] at h
    have hc := List.mem_singleton.mp ((List.mem_append.mp h).resolve_left hn)
    obtain ⟨rfl, -⟩ := Happening.called.inj hc
    exact ⟨.inl ⟨c, rfl⟩, hs⟩
  | resolve r ps =>
    rw [ha] at h
    have hc := List.mem_singleton.mp ((List.mem_append.mp h).resolve_left hn)
    obtain ⟨rfl, -⟩ := Happening.called.inj hc
    exact ⟨.inr ⟨r, ps, rfl⟩, hs⟩
  | finished o handler =>
    rw [ha] at h
    cases handler with
    | none =>
      refine absurd ((List.mem_append.mp h).resolve_left hn) ?_
      simp
    | some handler =>
      have hc := (List.mem_append.mp h).resolve_left hn
      cases o <;> simp_all [Invocation.stage?, Outcome.invocation]

end
end Site

theorem Turn.Occurs.live_of_called {u : Turn κ} (h : u.Occurs)
    (ha : (∃ c, u.act = .call c) ∨ ∃ r ps, u.act = .resolve r ps) :
    u.machine.Live ∧ u.machine.parked = none := by
  obtain ⟨m, ns, act⟩ := u
  rcases h.cases with hu | ⟨⟨hact, -⟩, -⟩ | ⟨-, s, hact⟩
  · rcases ha with ⟨c, rfl⟩ | ⟨r, ps, rfl⟩ <;> exact hu
  · rcases ha with ⟨c, rfl⟩ | ⟨r, ps, rfl⟩ <;> exact absurd hact nofun
  · rcases ha with ⟨c, rfl⟩ | ⟨r, ps, rfl⟩ <;> exact absurd hact nofun

namespace Engine

/-- The next signal of a context, from one configuration on, is taken in the step to another. -/
inductive TakesNext (host : Host κ σ ε) (c : ContextId) (a : Config κ σ ε) (es : List (Event κ ε))
    (s : Signal) (b : Config κ σ ε) : Prop
  | intro {ds : List (ContextId × Impulse κ)} {y : Config κ σ ε} {es' : List (Event κ ε)}
    {applied : Bool} (course : Course host a ds es y)
    (none : ∀ s applied, .taken s applied ∉ happenings c es) (step : step host y = .more b es')
    (taken : .taken s applied ∈ happenings c es')

/-- The driver of the context is about to apply a signal to this machine. -/
def Receives (c : ContextId) (m : Machine κ) (s : Signal) (b : Config κ σ ε) : Prop :=
  (b.world.context c).machine = some m ∧
    ∃ rest, b.stack = .driver c (.moving s.task false) :: rest

/-- The innermost frame of the machine is what user code is shown of the context. -/
def Shown (c : ContextId) (m : Machine κ) (b : Config κ σ ε) : Prop :=
  (b.world.context c).machine = some m ∧ m.isFinished = false ∧
    (b.world.context c).status.active = some ⟨m.active.sequence.name, m.children.length⟩

section
variable {host : Host κ σ ε} {a b z : Config κ σ ε} {c : ContextId} {m : Machine κ}
  {i : Invocation κ} {stage stage' : Stage κ} {below : List (Activation κ σ ε)}
  {es log : List (Event κ ε)} {s : Signal} {answer : String}

theorem TakesNext.receives (h : TakesNext host c a es s z) (ha : a.Tracked)
    (hu : (site c a).Along u) (hl : .launched ∉ happenings c es) :
    ∃ us v, Turn.Path u us v ∧ v.Idle ∧ Receives c v.machine s z ∧
      ∃ q, ((a.world.context c).queue.pushAll (posts (happenings c es))).pop? = some (s, q) := by
  obtain @⟨ds, y, es', applied, hcourse, hn, hs, ht⟩ := h
  have hy := hcourse.tracked ha
  obtain ⟨⟨us, v, path, hm, hattends⟩, hq⟩ := hcourse.along ha hu hl hn
  have hm : (y.world.context c).machine = some v.machine := hm
  obtain ⟨hpop, rest, hstack, ⟨-, -, hz⟩ | ⟨hnone, -⟩⟩ := cases_of_taken hy hs ht
  · have hidle : v.Idle := by
      have hpoll : (site c y).stage = some .poll := by
        rw [site, hstack]
        exact stage?_driver_self ..
      rwa [hpoll] at hattends
    refine ⟨us, v, path, hidle, ⟨?_, rest, hz⟩, _, hq ▸ hpop⟩
    obtain ⟨w, stack⟩ := y
    obtain rfl : stack = _ := hstack
    have hpoll := step_poll_of_pop? host hpop hm rest
    obtain ⟨hb, -⟩ := Progress.more.inj (hs.symm.trans hpoll)
    rw [hb, World.context_setContext_self]
    exact hm
  · exact absurd (hnone.symm.trans hm) (Option.some_ne_none _).symm

theorem Calls.live (h : Calls host c i stage below b) (hi : i.stage? = some stage') :
    stage = stage' ∧ b.Tracked ∧
      ∃ m, (b.world.context c).machine = some m ∧ m.Live ∧ m.parked = none := by
  obtain ⟨a, log, es, active, ha, hs⟩ := h.called
  have hb := tracked_of_more ha.tracked.1 hs
  have hmem : .called i active ∈ happenings c (es ++ [.called c i active]) := by
    simp [happenings, share, Event.place]
  rcases site_step ha.tracked.1 hs c with ⟨-, -, hh⟩ | ⟨j, -, -, hadmits, hr⟩
  · rw [hh] at hmem
    exact absurd hmem List.not_mem_nil
  · have hx := ha.tracked.1.contexts c
    have hmem : .called i active ∈ ((site c a).react j).2 := by rwa [hr]
    obtain ⟨m, t, windingUp, hm, hst, hfollow⟩ := Site.follow_of_called hadmits hmem
    rw [hfollow] at hmem hr
    obtain ⟨hact, hstage⟩ := Site.follow_called hi hmem
    obtain ⟨⟨m', ns, act⟩, hu, rfl, hu'⟩ := hx.machine m hm
    rw [show stage? c a.stack = _ from hst] at hu'
    obtain rfl : act = .work t windingUp := hu'
    obtain ⟨hlive, hp⟩ := (hu.next .work).live_of_called hact
    rw [hr] at hstage
    have hmachine := (Site.follow_traffic (site c a).context (m'.turn t windingUp)).2.2.1
    rw [hr] at hmachine
    refine ⟨?_, hb, _, hmachine, hlive, hp⟩
    have hstack : stage? c b.stack = some stage := by
      rw [h.stack]
      exact stage?_driver_self ..
    exact Option.some.inj (hstack.symm.trans hstage)

theorem During.beneath (h : During host (.driver c stage :: below) a b) (ha : a.Tracked)
    {above : List (Activation κ σ ε)} (hs : a.stack = above ++ .driver c stage :: below)
    (hne : above ≠ []) :
    b.Tracked ∧ (∃ above, b.stack = above ++ .driver c stage :: below ∧ above ≠ []) ∧
      (b.world.context c).machine = (a.world.context c).machine := by
  induction h with
  | refl => exact ⟨ha, ⟨above, hs, hne⟩, rfl⟩
  | step _ hs' hb hne' ih =>
    obtain ⟨ht, ⟨above', hs, hne⟩, hm⟩ := ih
    exact ⟨tracked_of_more ht hs', ⟨_, hb, hne'⟩, (step_beneath ht hs' hs hne hb hne').1.trans hm⟩

theorem Reachable.launched_mem_iff (h : Reachable host a log) (c : ContextId) :
    .launched ∈ happenings c log ↔ (a.world.context c).machine.isSome = true := by
  show _ ↔ (site c a).context.machine.isSome = true
  induction h with
  | start => exact ⟨fun hm => absurd hm List.not_mem_nil, nofun⟩
  | @step b b' log es h hs ih =>
    rw [happenings_append, List.mem_append, ih]
    rcases site_step h.tracked.1 hs c with ⟨-, hx, hh⟩ | ⟨i, -, -, hi, hr⟩
    · simp [hx, hh]
    · have hm := Site.machine_react_iff (x := site c b) (h.tracked.1.contexts c) hi
      rw [hr] at hm
      exact hm.symm
  | returned h hs k ih => rwa [site_returned h.tracked.1 hs]
  | panicked h hs k ih => rwa [site_panicked h.tracked.1 hs]

theorem Reachable.status_of_new (h : Reachable host a log) (c : ContextId)
    (hm : (a.world.context c).machine = none) : (a.world.context c).status = {} := by
  refine h.induct_site (motive := fun x => x.context.machine = none → x.context.status = {}) c
    (fun _ => rfl) ?_ hm
  intro x i hx hi ih hm
  have hn : ¬ (x.context.machine.isSome = true ∨ .launched ∈ (x.react i).2) := by
    rw [← Site.machine_react_iff hx hi, hm]
    exact Bool.false_ne_true
  rw [not_or, Option.not_isSome_iff_eq_none] at hn
  rw [Site.status_react_of_new hn.1 hn.2, ih hn.1]

theorem Reachable.active_eq_receiver? (h : Reachable host a log) (c : ContextId) :
    (a.world.context c).status.active = (a.world.context c).receiver? := by
  unfold Context.receiver?
  cases hm : (a.world.context c).machine with
  | none => rw [h.status_of_new c hm]
  | some m => exact (h.consistent c m hm).active

theorem Calls.shown (h : Reachable host b log) (hcall : Calls host c i stage below a)
    (hduring : During host (.driver c stage :: below) a b) (hi : i.stage? = some stage') :
    stage = stage' ∧ stage? c b.stack = some stage' ∧
      ∃ m, Shown c m b ∧ m.parked = none := by
  obtain ⟨rfl, ha, m, hm, hlive, hp⟩ := hcall.live hi
  have hcalled : a.stack = [.code (host i c)] ++ .driver c stage :: below := hcall.stack
  obtain ⟨hb, ⟨above, hstack, hne⟩, hmachine⟩ :=
    hduring.beneath ha hcalled (List.cons_ne_nil _ _)
  have hmb := hmachine.trans hm
  have hactive := h.active_eq_receiver? c
  rw [Context.receiver?, hmb] at hactive
  refine ⟨rfl, (stage?_beneath hb.layers hstack hne).1, m, ⟨hmb, hlive.isFinished, ?_⟩, hp⟩
  rw [hactive]
  simp [hlive.isFinished]

theorem step_settle_of_parked (host : Host κ σ ε) {w : World κ σ} {p : Parked}
    (hm : (w.context c).machine = some m) (hp : m.parked = some p)
    (rest : List (Activation κ σ ε)) :
    step host ⟨w, .driver c .settle :: rest⟩ =
      .more ⟨w.setContext c { w.context c with machine := some m.unpark },
        .driver c (.moving p.task false) :: rest⟩ [] := by
  simp only [step, drive, hm, Option.bind_some, hp, Option.map_some, goOn]

theorem receives_answer (host : Host κ σ ε)
    (hs : b.stack = .code (.done answer) :: .driver c .choosing :: below)
    (hm : (b.world.context c).machine = some m) (hp : m.parked = none) :
    ∃ b' b'', step host b = .more b' [] ∧ step host b' = .more b'' [] ∧
      Receives c m (.goto answer) b'' ∧
        (b''.world.context c).queue = (b.world.context c).queue := by
  obtain ⟨w, stack⟩ := b
  obtain rfl : stack = _ := hs
  have hm : (w.context c).machine = some m := hm
  generalize hw : (w.modify c fun x => { x with machine := x.machine.map (·.choose answer) }) = v
  have hv : v.context c = { w.context c with machine := some (m.choose answer) } := by
    rw [← hw, context_modify_self]
    simp only [hm, Option.map_some]
  have hu : (m.choose answer).unpark = m := by simp only [Machine.choose, Machine.unpark, ← hp]
  have hsettle := step_settle_of_parked host (congrArg Context.machine hv) rfl below
  rw [hu] at hsettle
  refine ⟨⟨v, .driver c .settle :: below⟩, _, by rw [← hw]; rfl, hsettle, ⟨?_, below, rfl⟩, ?_⟩
  · rw [World.context_setContext_self]
  · rw [World.context_setContext_self, hv]

theorem machine_of_path_call {k : MethodCall κ} {ns : List Notice} {v : Turn κ} {us : List (Turn κ)}
    (hp : m.parked = none) (path : Turn.Path ⟨m, ns, .call k⟩ us v) : v.machine = m := by
  cases path with
  | refl => rfl
  | cons hn path =>
    cases hn with
    | called =>
      have hsettled : Turn.Settled (⟨m, [], .settle⟩ : Turn κ) := ⟨rfl, hp⟩
      rw [(hsettled.path path).2]

theorem TakesNext.receives_of_call {k : MethodCall κ} (h : TakesNext host c b es s z)
    (hb : b.Tracked) (hu : (site c b).Along ⟨m, [], .call k⟩) (hf : m.isFinished = false)
    (hp : m.parked = none) :
    Receives c m s z ∧
      ∃ q, ((b.world.context c).queue.pushAll (posts (happenings c es))).pop? = some (s, q) := by
  have hl : .launched ∉ happenings c es := by
    obtain ⟨hcourse, hn, -, -⟩ := h
    refine hcourse.launched_not_mem hb hu (fun us v path => ?_) hn
    rw [machine_of_path_call hp path, hf]
  obtain ⟨us, v, path, -, hr, hpop⟩ := h.receives hb hu hl
  rw [machine_of_path_call hp path] at hr
  exact ⟨hr, hpop⟩

/-- The goto to the answer of a resolver comes before the next signal, which finds the frame that
the goto has led to. -/
theorem takesNext_of_answer {b' : Config κ σ ε} (h : TakesNext host c b' es s z) (hb : b'.Tracked)
    (hr : Receives c m (.goto answer) b') (hl : .launched ∉ happenings c es) :
    ∃ m', m.LeadsTo (.goto answer) m' ∧ Receives c m' s z ∧
      ∃ q, ((b'.world.context c).queue.pushAll (posts (happenings c es))).pop? = some (s, q) := by
  obtain ⟨hm, rest, hstack⟩ := hr
  have hu : (site c b').Along (m.receive (.goto answer)) := by
    refine ⟨[], _, .refl _, hm, ?_⟩
    rw [site, hstack, stage?_driver_self]
    rfl
  obtain ⟨us, v, path, hidle, hr, hpop⟩ := h.receives hb hu hl
  exact ⟨v.machine, ⟨us, v, path, hidle, rfl⟩, hr, hpop⟩

/-- While user code runs, and whenever no driver does, the active sequence of a context is the
innermost frame of its run, if that goes on. An operation is shown the frame to which the next
signal of its context is applied, which is the signal that it posts if none waits. A resolver is
shown the frame in which its answer is gone to. What it posts waits for that goto: unless a new run
clears the queue, the next signal is applied to the frame that the goto has led to, and it is the
one posted by the resolver if that waits alone and is not deferred while an immediate one comes. -/
theorem active_names_receiver (h : Reachable host b log) (c : ContextId) :
    (b.world.context c).status.active = (b.world.context c).receiver? ∧
    ((b.world.context c).machine = none ↔ .launched ∉ happenings c log) ∧
    ∀ a i stage below, Calls host c i stage below a →
      During host (.driver c stage :: below) a b →
      (∀ o ps, i = .operation o ps → ∃ m, Shown c m b ∧
        ∀ es s z, TakesNext host c b es s z → Receives c m s z ∧
          ∀ s' deferred, (b.world.context c).queue = {} →
            posts (happenings c es) = [(s', deferred)] → s = s') ∧
      ∀ r ps, i = .resolver r ps → ∃ m, Shown c m b ∧
        ∀ answer, b.stack = .code (.done answer) :: .driver c stage :: below →
          ∃ b' b'', step host b = .more b' [] ∧ step host b' = .more b'' [] ∧
            Receives c m (.goto answer) b'' ∧
            ∀ es s z, TakesNext host c b'' es s z → .launched ∉ happenings c es →
              ∃ m', m.LeadsTo (.goto answer) m' ∧ Receives c m' s z ∧
                ∀ s' deferred, (b.world.context c).queue = ({} : SignalQueue).push s' deferred →
                  (deferred = false ∨ ∀ p ∈ posts (happenings c es), p.2 = true) → s = s' := by
  refine ⟨h.active_eq_receiver? c, ?_, fun a i stage below hcall hduring => ⟨?_, ?_⟩⟩
  · rw [h.launched_mem_iff c, Option.not_isSome_iff_eq_none]
  · rintro o ps rfl
    obtain ⟨rfl, hstage, m, hshown, hp⟩ := hcall.shown h hduring rfl
    have hu : (site c b).Along ⟨m, [], .call { operation := o, params := ps }⟩ := by
      refine ⟨[], _, .refl _, hshown.1, ?_⟩
      rw [site, hstage]
      exact .inl ⟨_, rfl⟩
    refine ⟨m, hshown, fun es s z ht => ?_⟩
    obtain ⟨hr, q, hpop⟩ := ht.receives_of_call h.tracked.1 hu hshown.2.1 hp
    refine ⟨hr, fun s' deferred hq hps => ?_⟩
    rw [hq, hps] at hpop
    have hpush := SignalQueue.pop?_push s' deferred
    exact (Prod.mk.inj (Option.some.inj (hpop.symm.trans hpush))).1
  · rintro r ps rfl
    obtain ⟨rfl, -, m, hshown, hp⟩ := hcall.shown h hduring rfl
    refine ⟨m, hshown, fun answer hs => ?_⟩
    obtain ⟨b', b'', hs', hs'', hr, hq⟩ := receives_answer host hs hshown.1 hp
    refine ⟨b', b'', hs', hs'', hr, fun es s z ht hl => ?_⟩
    have htracked := tracked_of_more (tracked_of_more h.tracked.1 hs') hs''
    obtain ⟨m', hleads, hr', q, hpop⟩ := takesNext_of_answer ht htracked hr hl
    refine ⟨m', hleads, hr', fun s' deferred hq' hps => ?_⟩
    rw [hq, hq'] at hpop
    exact SignalQueue.eq_of_pop?_pushAll hpop hps

end

theorem Calls.during_step {host : Host κ σ ε} {a b : Config κ σ ε} {c : ContextId}
    {i : Invocation κ} {stage : Stage κ} {below : List (Activation κ σ ε)} {es : List (Event κ ε)}
    {k : Code κ σ ε} (_ : Calls host c i stage below a) (hs : step host a = .more b es)
    (hb : b.stack = .code k :: .driver c stage :: below) :
    During host (.driver c stage :: below) a b := by
  have hb : b.stack = [.code k] ++ .driver c stage :: below := hb
  exact .step .refl hs hb (List.cons_ne_nil _ _)

theorem Reachable.course_refl {host : Host κ σ ε} {a : Config κ σ ε} {log : List (Event κ ε)}
    (_ : Reachable host a log) : Course host a [] [] a := .refl

def nudging : Host Unit Unit Unit
  | .operation _ _, c => .post c .proceed false (.done "")
  | _, _ => .done ""

/-- The resolver posts a signal and answers with another label. -/
def torn : Host Unit Unit Unit
  | .resolver _ _, c => .post c (.goto "here") false (.done "inner")
  | _, _ => .done ""

/-- A label of the sequence that the root nests, and one of the root itself. -/
def detour : Sequence Unit :=
  ((({} : Sequence Unit).push (.goto ⟨none, .resolver () [], none⟩)).push
    (.sequence ⟨some "inner", { entries := [.method { operation := () }] }, none⟩)).push
    (.method { label := some "here", operation := () })

/-- An operation in the body of a loop is shown the body, which is what its signal is applied to. A
resolver at the root is shown the root, and its signal is applied to the sequence that it
chooses. -/
theorem shown_frames_receive :
    (∃ b log m es z, Reachable nudging b log ∧ Shown 0 m b ∧
      (b.world.context 0).status.active = some ⟨none, 1⟩ ∧
      TakesNext nudging 0 b es .proceed z ∧ Receives 0 m .proceed z) ∧
    ∃ b log m b'' m' es z, Reachable torn b log ∧ Shown 0 m b ∧
      (b.world.context 0).status.active = some ⟨none, 0⟩ ∧
      Receives 0 m (.goto "inner") b'' ∧ m.LeadsTo (.goto "inner") m' ∧ m'.children.length = 1 ∧
      TakesNext torn 0 b'' es (.goto "here") z ∧ Receives 0 m' (.goto "here") z := by
  constructor
  · have h0 : Reachable nudging _ _ := .start () (.launch 0 humming (.done ""))
    have h4 : Reachable nudging _ _ := (((h0.step rfl).step rfl).step rfl).step rfl
    have h8 : Reachable nudging _ _ := (((h4.step rfl).step rfl).step rfl).step rfl
    have h : Reachable nudging _ _ := h8.step rfl
    have hcall : Calls nudging 0 (.operation () []) .calling [_] _ := ⟨rfl, _, _, [], _, h8, rfl⟩
    obtain ⟨-, -, hall⟩ := active_names_receiver h 0
    obtain ⟨m, hshown, hnext⟩ := (hall _ _ _ _ hcall .refl).1 _ _ rfl
    -- The operation posts its signal and returns.
    have hcourse := (((Reachable.course_refl h).step rfl).step rfl).step rfl
    have htakes : TakesNext nudging 0 _ _ .proceed _ :=
      ⟨hcourse, by simp [happenings, share, Event.place], rfl, List.mem_singleton_self _⟩
    exact ⟨_, _, m, _, _, h, hshown, rfl, htakes, (hnext _ _ _ htakes).1⟩
  · have h0 : Reachable torn _ _ := .start () (.launch 0 detour (.done ""))
    have h3 : Reachable torn _ _ := ((h0.step rfl).step rfl).step rfl
    have h4 : Reachable torn _ _ := h3.step rfl
    have hcall : Calls torn 0 (.resolver () []) .choosing [_] _ := ⟨rfl, _, _, [], _, h3, rfl⟩
    -- The resolver has posted its signal and is about to answer.
    have h : Reachable torn _ _ := h4.step rfl
    have hduring : During torn _ _ _ := hcall.during_step rfl rfl
    obtain ⟨-, -, hall⟩ := active_names_receiver h 0
    obtain ⟨m, hshown, hanswer⟩ := (hall _ _ _ _ hcall hduring).2 _ _ rfl
    obtain ⟨b', b'', hs', hs'', hr, hnext⟩ := hanswer _ rfl
    obtain ⟨rfl, -⟩ := Progress.more.inj hs'
    obtain ⟨rfl, -⟩ := Progress.more.inj hs''
    -- The nested sequence is entered and its operation is called before the signal is taken.
    have h3 := (((Reachable.course_refl ((h.step rfl).step rfl)).step rfl).step rfl).step rfl
    have h6 := ((h3.step rfl).step rfl).step rfl
    have quiet (s : Signal) (applied : Bool) : .taken s applied ∉
        ([.called (.operation () []) (some ⟨none, 1⟩)] : List (Happening Unit)) := by simp
    have kept : .launched ∉
        ([.called (.operation () []) (some ⟨none, 1⟩)] : List (Happening Unit)) := by simp
    have htakes : TakesNext torn 0 _ _ (.goto "here") _ :=
      ⟨h6, quiet, rfl, List.mem_singleton_self _⟩
    obtain ⟨m', hleads, hr', -⟩ := hnext _ _ _ htakes kept
    have hlength := congrArg (Option.map (·.children.length)) hr'.1
    exact ⟨_, _, m, _, m', _, _, h, hshown, rfl, hr, hleads, (Option.some.inj hlength).symm,
      htakes, hr'⟩

/-- The signal of the resolver finds the sequence that its answer has led to. -/
theorem resolver_not_shown_receiver :
    ¬ ∀ (host : Host Unit Unit Unit) (a b z : Config Unit Unit Unit)
      (log es : List (Event Unit Unit))
      (c : ContextId) (r : Unit) (ps : List Json) (stage : Stage Unit)
      (below : List (Activation Unit Unit Unit)) (m : Machine Unit) (s : Signal) (deferred : Bool),
      Reachable host b log → Calls host c (.resolver r ps) stage below a →
      During host (.driver c stage :: below) a b → Shown c m b →
      (b.world.context c).queue = {} → TakesNext host c b es s z →
      posts (happenings c es) = [(s, deferred)] → Receives c m s z := by
  intro hall
  have h0 : Reachable torn _ _ := .start () (.launch 0 detour (.done ""))
  have h3 : Reachable torn _ _ := ((h0.step rfl).step rfl).step rfl
  have h : Reachable torn _ _ := h3.step rfl
  have hcall : Calls torn 0 (.resolver () []) .choosing [_] _ := ⟨rfl, _, _, [], _, h3, rfl⟩
  obtain ⟨-, -, m, hshown, -⟩ := hcall.shown h .refl rfl
  -- The nested sequence is entered before the signal is taken.
  have h3 := (((Reachable.course_refl h).step rfl).step rfl).step rfl
  have h6 := ((h3.step rfl).step rfl).step rfl
  have h9 := ((h6.step rfl).step rfl).step rfl
  have quiet (s : Signal) (applied : Bool) : .taken s applied ∉
      ([.posted (.goto "here") false, .called (.operation () []) (some ⟨none, 1⟩)] :
        List (Happening Unit)) := by simp
  have htakes : TakesNext torn 0 _ _ (.goto "here") _ :=
    ⟨h9, quiet, rfl, List.mem_singleton_self _⟩
  have hr := hall _ _ _ _ _ _ _ _ _ _ _ _ _ _ h hcall .refl hshown rfl htakes rfl
  have hm := hshown.1.trans hr.1.symm
  exact absurd (congrArg (fun m => m.map (·.children.length)) hm) nofun

end Engine
end Sequencer
