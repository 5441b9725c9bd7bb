import Sequencer.Proofs.Engine.Agreement
import Sequencer.Proofs.Engine.Queueing
import Sequencer.Proofs.Engine.Unwinding

/-! Panics. Every run that a panic passes through stays in the state in which it last called user
code, its status says so, and every signal that was not taken stays queued. The next signal that is
posted sets a driver to work again, which goes on with that queue. -/

namespace Sequencer
variable {κ σ ε : Type}

namespace Engine

/-- From one configuration to another, panics included, with all that has been seen on the way. -/
inductive Seen (host : Host κ σ ε) (a : Config κ σ ε) :
    Config κ σ ε → List (ContextId × Happening κ × Bool) → Prop
  | refl : Seen host a a []
  | step {b b' : Config κ σ ε} {ws : List (ContextId × Happening κ × Bool)} {es : List (Event κ ε)}
    (h : Seen host a b ws) (hs : step host b = .more b' es) :
    Seen host a b' (ws ++ sightings b es)
  | returned {b : Config κ σ ε} {ws : List (ContextId × Happening κ × Bool)} {w : World κ σ}
    {answer : String} (h : Seen host a b ws) (hs : Engine.step host b = .returned w answer)
    (k : Code κ σ ε) : Seen host a ⟨w, [.code k]⟩ ws
  | panicked {b : Config κ σ ε} {ws : List (ContextId × Happening κ × Bool)} {w : World κ σ}
    (h : Seen host a b ws) (hs : Engine.step host b = .panicked w) (k : Code κ σ ε) :
    Seen host a ⟨w, [.code k]⟩ ws

/-- How a panic that goes off in one configuration leaves a context, given the driver of the context
that it unwinds and what that driver was set to work by. -/
structure Interrupted (host : Host κ σ ε) (c : ContextId) (stage : Stage κ)
    (below : List (Activation κ σ ε)) (b : Config κ σ ε) (x : Context κ) : Prop where
  released : x.driving = false
  /-- The run is where it was when the driver made the call that the panic left. -/
  machine : ∃ a i m, Calls host c i stage below a ∧ During host (.driver c stage :: below) a b ∧
    (a.world.context c).machine = some m ∧ x.machine = some m ∧ m.WellFormed ∧
    x.status = (a.world.context c).status ∧ x.status.Agrees m
  queue : ∀ a log ws, Reachable host a log → Seen host a b ws →
    Conserves (a.world.context c).queue (share c ws) x.queue

/-- The next signal that is posted to the context joins what waits there and sets a driver to work.
That takes up exactly this queue and stays, unless another panic unwinds it, until nothing waits. -/
def Resumes (host : Host κ σ ε) (c : ContextId) (w : World κ σ) : Prop :=
  ∀ k ds es b s deferred k' rest, Course host ⟨w, [.code k]⟩ ds es b →
    (∀ s d, .posted s d ∉ happenings c es) → b.stack = .code (.post c s deferred k') :: rest →
    ∃ b' b'' s' q, step host b = .more b' [.posted c s deferred] ∧
      b'.stack = .driver c .poll :: .code k' :: rest ∧
      b'.world.context c =
        { w.context c with queue := (w.context c).queue.push s deferred, driving := true } ∧
      ((w.context c).queue.push s deferred).pop? = some (s', q) ∧
      step host b' = .more b'' [.taken c s' true] ∧
      b''.stack = .driver c (.moving s'.task false) :: .code k' :: rest ∧
      b''.world.context c = { w.context c with queue := q, driving := true } ∧
      (∀ z ws, Seen host b' z ws → Conserves ((w.context c).queue.push s deferred) (share c ws)
        (z.world.context c).queue) ∧
      ∀ ds' es' z, Course host b' ds' es' z → (∀ run, .user .panic run ∉ share c ds') →
        (∀ stage, .driver c stage ∉ z.stack) → (z.world.context c).queue = {}

section
variable {host : Host κ σ ε} {a b : Config κ σ ε} {w : World κ σ} {c : ContextId}
  {rest : List (Activation κ σ ε)} {ds : List (ContextId × Impulse κ)} {es log : List (Event κ ε)}
  {ws : List (ContextId × Happening κ × Bool)}

theorem Seen.tracked (ha : a.Tracked) (h : Seen host a b ws) : b.Tracked := by
  induction h with
  | refl => exact ha
  | step _ hs ih => exact tracked_of_more ih hs
  | returned _ hs k ih => exact tracked_of_returned ih hs k
  | panicked _ hs k ih => exact tracked_of_panicked ih hs k

/-- No signal is lost or overtaken by one of its own kind, panics or not, until a run is
launched. -/
theorem Seen.conserves (ha : a.Tracked) (h : Seen host a b ws) (c : ContextId) :
    Conserves (a.world.context c).queue (share c ws) (b.world.context c).queue := by
  show Conserves _ _ (site c b).context.queue
  induction h with
  | refl => exact .refl _
  | @step b b' ws es hseen hs ih =>
    have hb := hseen.tracked ha
    rw [share_append, share_sightings]
    refine ih.trans ?_
    rcases site_step hb hs c with ⟨-, hx, hh⟩ | ⟨i, -, -, hadmits, hr⟩
    · rw [hh, hx]
      exact .refl _
    · have ht := Site.traffic_react (x := site c b) (hb.contexts c) hadmits
      rw [hr] at ht
      exact ht.conserves
  | returned hseen hs k ih =>
    rw [site_returned (hseen.tracked ha) hs]
    exact ih
  | panicked hseen hs k ih =>
    rw [site_panicked (hseen.tracked ha) hs]
    exact ih

theorem Course.site_of_not_posted (ha : a.Tracked) (h : Course host a ds es b)
    (hstage : stage? c a.stack = none) (hn : ∀ s d, .posted s d ∉ happenings c es) :
    site c b = site c a := by
  refine h.induct_site (motive := fun x _ hs => (∀ s d, .posted s d ∉ hs) → x = site c a) ha c
    (fun _ => rfl) ?_ hn
  intro x is hs i hx hi ih hn
  simp only [List.mem_append, not_or] at hn
  obtain rfl := ih fun s d => (hn s d).1
  have hstage : (site c a).stage = none := hstage
  cases i with
  | drive =>
    obtain ⟨stage, hst, -⟩ := hi
    exact absurd (hst.symm.trans hstage) nofun
  | user doing run =>
    cases doing with
    | answer | panic =>
      obtain ⟨stage, hst, -⟩ := hi
      exact absurd (hst.symm.trans hstage) nofun
    | post s d => exact absurd (List.mem_singleton_self _) (hn s d).2
    | launch s =>
      by_cases hacc : accepts (site c a).context = true
      · have hposted := (hn .next false).2
        rw [Site.react_launch_of_accepts hacc] at hposted
        exact absurd (by simp) hposted
      · rw [Site.react_launch_of_not_accepts hacc]

theorem Course.queue_eq_empty (ha : a.Tracked) (h : Course host a ds es b)
    (hq : stage? c a.stack = none → (a.world.context c).queue = {})
    (hp : ∀ run, .user .panic run ∉ share c ds) (hn : ∀ stage, .driver c stage ∉ b.stack) :
    (b.world.context c).queue = {} := by
  refine h.induct_site (motive := fun x is _ => (∀ run, .user .panic run ∉ is) →
    x.stage = none → x.context.queue = {}) ha c (fun _ => hq) ?_ hp (stage?_eq_none_iff.mpr hn)
  intro x is hs i hx hi ih hp hn
  have hp' : ∀ run, .user .panic run ∉ is := fun run hm => hp run (List.mem_append_left _ hm)
  cases Site.traffic_react hx hi with
  | none ht hq hm hr =>
    rw [hq]
    rcases hr hn with hn | ⟨run, rfl⟩ | hq
    · exact ih hp' hn
    · exact absurd (List.mem_append_right _ (List.mem_singleton_self _)) (hp run)
    · exact SignalQueue.eq_empty_of_pop? hq
  | posted _ _ _ _ _ hr | launched _ _ _ _ _ _ hr | taken _ _ _ _ _ _ hr => exact absurd hn hr

theorem exists_pop?_push (q : SignalQueue) (s : Signal) (deferred : Bool) :
    ∃ s' q', (q.push s deferred).pop? = some (s', q') := by
  obtain ⟨immediate, dq⟩ := q
  cases deferred <;> cases immediate <;> cases dq <;> exact ⟨_, _, rfl⟩

theorem step_post_of_not_driving (host : Host κ σ ε) (hd : (w.context c).driving = false)
    (s : Signal) (deferred : Bool) (k : Code κ σ ε) (rest : List (Activation κ σ ε)) :
    step host ⟨w, .code (.post c s deferred k) :: rest⟩ =
      .more ⟨w.setContext c
          { w.context c with queue := (w.context c).queue.push s deferred, driving := true },
        .driver c .poll :: .code k :: rest⟩ [.posted c s deferred] := by
  simp only [step, request, post, hd, Bool.false_eq_true, if_false, goOn]

theorem step_poll_of_pop? (host : Host κ σ ε) {s : Signal} {q : SignalQueue} {m : Machine κ}
    (hq : (w.context c).queue.pop? = some (s, q)) (hm : (w.context c).machine = some m)
    (rest : List (Activation κ σ ε)) :
    step host ⟨w, .driver c .poll :: rest⟩ =
      .more ⟨w.setContext c { w.context c with queue := q },
        .driver c (.moving s.task false) :: rest⟩ [.taken c s true] := by
  simp only [step, drive, hq, hm, goOn]

theorem resumes_of_tracked {m : Machine κ} (ht : ∀ k : Code κ σ ε, Config.Tracked ⟨w, [.code k]⟩)
    (hm : (w.context c).machine = some m) : Resumes host c w := by
  intro k ds es b s deferred k' rest hcourse hn hb
  obtain ⟨v, stack⟩ := b
  obtain rfl : stack = _ := hb
  have hv : v.context c = w.context c :=
    congrArg Site.context (hcourse.site_of_not_posted (ht k) rfl hn)
  have hd : (v.context c).driving = false := by
    rw [hv, ((ht k).contexts c).driving]
    rfl
  have hpost := step_post_of_not_driving host hd s deferred k' rest
  have hb' := tracked_of_more (hcourse.tracked (ht k)) hpost
  rw [hv] at hpost hb'
  obtain ⟨s', q, hq⟩ := exists_pop?_push (w.context c).queue s deferred
  generalize hw' : v.setContext c _ = v' at hpost hb'
  have hx' : v'.context c =
      { w.context c with queue := (w.context c).queue.push s deferred, driving := true } := by
    rw [← hw']
    exact World.context_setContext_self ..
  have hpoll := step_poll_of_pop? host (w := v') (c := c) (by rw [hx']; exact hq)
    (by rw [hx']; exact hm) (.code k' :: rest)
  refine ⟨_, _, s', q, hpost, rfl, hx', hq, hpoll, rfl, ?_, ?_, ?_⟩
  · rw [hx']
    exact World.context_setContext_self ..
  · intro z ws hseen
    have hconserves := hseen.conserves hb' c
    rwa [show (v'.context c).queue = _ from congrArg Context.queue hx'] at hconserves
  · intro ds' es' z hcourse' hp hn'
    refine hcourse'.queue_eq_empty hb' (fun hnone => ?_) hp hn'
    exact absurd ((stage?_driver_self ..).symm.trans hnone) nofun

theorem interrupted_of_beneath {above below : List (Activation κ σ ε)} {stage : Stage κ}
    (h : Reachable host ⟨w, .code .panic :: (above ++ .driver c stage :: below)⟩ log) :
    Interrupted host c stage below ⟨w, .code .panic :: (above ++ .driver c stage :: below)⟩
      { w.context c with driving := false } := by
  have hstack : (.code .panic :: (above ++ .driver c stage :: below) : List (Activation κ σ ε)) =
      (.code .panic :: above) ++ .driver c stage :: below := rfl
  obtain ⟨a, i, hcall, hduring, hne, hmachine, hstatus⟩ :=
    exists_call h hstack (List.cons_ne_nil _ _)
  obtain ⟨m, hm⟩ := Option.ne_none_iff_exists'.mp hne
  have hw : (w.context c).machine = some m := hmachine.trans hm
  have hwell : m.WellFormed := by
    obtain ⟨htracked, -⟩ := h.tracked
    obtain ⟨u, hu, rfl, ha⟩ := (htracked.contexts c).machine m hw
    exact hu.wellFormed (ha.idle htracked.layers not_false)
  have hagrees : (w.context c).status.Agrees m := h.consistent c m hw
  refine ⟨rfl, ⟨a, i, m, hcall, hduring, hm, hw, hwell, hstatus, hagrees⟩, ?_⟩
  intro a' log' ws ha' hseen
  exact hseen.conserves ha'.tracked.1 c

/-- A panic, wherever it goes off and however many drivers of whatever contexts it unwinds: the
contexts whose drivers it unwinds are left as at the calls it comes through, and take up signals
again; the others are left alone. -/
theorem panic_safe (h : Reachable host ⟨w, .code .panic :: rest⟩ log) :
    ∃ w', Steps host ⟨w, .code .panic :: rest⟩ [] ⟨w', [.code .panic]⟩ ∧
      step host ⟨w', [.code .panic]⟩ = .panicked w' ∧
      (∀ c, (∀ stage, .driver c stage ∉ rest) → w'.context c = w.context c) ∧
      ∀ c above stage below, rest = above ++ .driver c stage :: below →
        Interrupted host c stage below ⟨w, .code .panic :: rest⟩ (w'.context c) ∧
          Resumes host c w' := by
  have hsteps := steps_unwound host w rest
  refine ⟨unwound w rest, hsteps, rfl, fun c hc => context_unwound_of_not_mem hc, ?_⟩
  rintro c above stage below rfl
  have hx : (unwound w (above ++ .driver c stage :: below)).context c =
      { w.context c with driving := false } :=
    context_unwound ⟨stage, List.mem_append_right _ (List.mem_cons_self ..)⟩
  have hleft := interrupted_of_beneath h
  have hout (k : Code κ σ ε) := ((h.steps hsteps).panicked rfl k).tracked.1
  rw [← hx] at hleft
  obtain ⟨-, -, m, -, -, -, hm, -⟩ := hleft.machine
  exact ⟨hleft, resumes_of_tracked hout hm⟩

end

/-- The operation of one run leaves two signals waiting and launches another run, whose operation
panics. -/
def reckless : Host Unit Unit Unit
  | .operation _ _, 0 =>
    .post 0 .finish true (.post 0 .next false
      (.launch 1 { entries := [.method { operation := () }] } (.done "")))
  | .operation _ _, _ => .panic
  | _, _ => .done ""

theorem reckless_panic_safe :
    ∃ w w' rest log, Reachable reckless ⟨w, .code .panic :: rest⟩ log ∧
      Steps reckless ⟨w, .code .panic :: rest⟩ [] ⟨w', [.code .panic]⟩ ∧
      (∃ below, Interrupted reckless 1 .calling below ⟨w, .code .panic :: rest⟩ (w'.context 1) ∧
        Resumes reckless 1 w') ∧
      (∃ below, Interrupted reckless 0 .calling below ⟨w, .code .panic :: rest⟩ (w'.context 0) ∧
        Resumes reckless 0 w') ∧
      (w'.context 0).queue.waiting false = [.next] ∧
      (w'.context 0).queue.waiting true = [.finish] := by
  have h0 : Reachable reckless _ _ :=
    .start () (.launch 0 { entries := [.method { operation := () }] } (.done ""))
  have h4 : Reachable reckless _ _ := (((h0.step rfl).step rfl).step rfl).step rfl
  -- The first operation posts its signals and launches the other run.
  have h7 : Reachable reckless _ _ := ((h4.step rfl).step rfl).step rfl
  have h : Reachable reckless ⟨_, .code .panic :: _⟩ _ := ((h7.step rfl).step rfl).step rfl
  obtain ⟨w', hsteps, -, -, hall⟩ := panic_safe h
  have hfirst := hall 0 [_, _] .calling [_] rfl
  have waiting (d : Bool) := (hfirst.1.queue _ _ [] h .refl).kept List.not_mem_nil d
  refine ⟨_, w', _, _, h, hsteps, ⟨_, hall 1 [] .calling _ rfl⟩, ⟨_, hfirst⟩, ?_, ?_⟩
  · exact (waiting false).symm
  · exact (waiting true).symm

end Engine
end Sequencer
