import Sequencer.Proofs.Engine.Course

/-! Queueing. Until a run is launched no signal is lost, doubled or overtaken by one of its own
kind, and a deferred one is taken only when no immediate one waits. While nothing panics the driver
of a context is gone only when all that was posted is, so a launch finds nothing to clear. -/

namespace Sequencer
variable {κ σ ε : Type}

namespace SignalQueue
variable {q q' : SignalQueue} {s : Signal}

def waiting (q : SignalQueue) (deferred : Bool) : List Signal :=
  if deferred then q.deferred else q.immediate

@[simp] theorem waiting_empty (d : Bool) : ({} : SignalQueue).waiting d = [] := by cases d <;> rfl

theorem waiting_push (q : SignalQueue) (s : Signal) (d d' : Bool) :
    (q.push s d).waiting d' = q.waiting d' ++ if d = d' then [s] else [] := by
  cases d <;> cases d' <;> simp [push, waiting]

theorem eq_empty_of_pop? (h : q.pop? = none) : q = {} := by
  obtain ⟨immediate, deferred⟩ := q
  cases immediate with
  | cons s r => exact absurd h nofun
  | nil =>
    cases deferred with
    | cons s r => exact absurd h nofun
    | nil => rfl

theorem waiting_of_pop? (h : q.pop? = some (s, q')) (d : Bool) :
    q.waiting d = (if q.immediate.isEmpty = d then [s] else []) ++ q'.waiting d := by
  obtain ⟨immediate, deferred⟩ := q
  cases immediate with
  | cons s r =>
    obtain ⟨rfl, rfl⟩ := Prod.mk.inj (Option.some.inj h)
    cases d <;> rfl
  | nil =>
    cases deferred with
    | cons s r =>
      obtain ⟨rfl, rfl⟩ := Prod.mk.inj (Option.some.inj h)
      cases d <;> rfl
    | nil => exact absurd h nofun

end SignalQueue

namespace Happening

def posted? (deferred : Bool) : Happening κ → Option Signal
  | .posted s d => if d = deferred then some s else none
  | _ => none

def taken? : Happening κ → Option Signal
  | .taken s _ => some s
  | _ => none

end Happening

namespace Engine

/-- What was posted, of one kind. With each happening it is noted whether no immediate signal was
waiting at the context then. -/
def sent (deferred : Bool) (ws : List (Happening κ × Bool)) : List Signal :=
  ws.filterMap fun w => w.1.posted? deferred

/-- The signals that were taken, of one kind: deferred are those for which no immediate one had to
wait. -/
def served (deferred : Bool) (ws : List (Happening κ × Bool)) : List Signal :=
  ws.filterMap fun w => if w.2 = deferred then w.1.taken? else none

def sightings (cfg : Config κ σ ε) (es : List (Event κ ε)) :
    List (ContextId × Happening κ × Bool) :=
  (es.filterMap Event.place).map fun p =>
    (p.1, p.2, (cfg.world.context p.1).queue.immediate.isEmpty)

/-- The configurations that come up while nothing panics, with all that has been seen on the way. -/
inductive Watched (host : Host κ σ ε) :
    Config κ σ ε → List (ContextId × Happening κ × Bool) → Prop
  | start (s : σ) (k : Code κ σ ε) : Watched host ⟨{ host := s }, [.code k]⟩ []
  | step {a b : Config κ σ ε} {ws : List (ContextId × Happening κ × Bool)}
    {es : List (Event κ ε)} (h : Watched host a ws)
    (calm : ∀ rest, a.stack ≠ .code .panic :: rest) (hs : step host a = .more b es) :
    Watched host b (ws ++ sightings a es)
  | returned {a : Config κ σ ε} {ws : List (ContextId × Happening κ × Bool)} {w : World κ σ}
    {answer : String} (h : Watched host a ws) (hs : Engine.step host a = .returned w answer)
    (k : Code κ σ ε) : Watched host ⟨w, [.code k]⟩ ws

section
variable {d : Bool} {ws ws' : List (Happening κ × Bool)}

theorem sent_append : sent d (ws ++ ws') = sent d ws ++ sent d ws' := List.filterMap_append

theorem served_append : served d (ws ++ ws') = served d ws ++ served d ws' :=
  List.filterMap_append

theorem sent_of_not_traffic (h : ∀ w ∈ ws, w.1.traffic = false) : sent d ws = [] := by
  refine List.filterMap_eq_nil_iff.mpr fun w hw => ?_
  obtain ⟨w, idle⟩ := w
  cases w with
  | posted => exact absurd (h _ hw) nofun
  | _ => rfl

theorem served_of_not_traffic (h : ∀ w ∈ ws, w.1.traffic = false) : served d ws = [] := by
  refine List.filterMap_eq_nil_iff.mpr fun w hw => ?_
  obtain ⟨w, idle⟩ := w
  cases w with
  | taken => exact absurd (h _ hw) nofun
  | _ => exact ite_self none

theorem share_sightings (c : ContextId) (cfg : Config κ σ ε) (es : List (Event κ ε)) :
    share c (sightings cfg es) =
      (happenings c es).map (·, (cfg.world.context c).queue.immediate.isEmpty) := by
  rw [sightings, happenings, share, share, List.filterMap_map, List.map_filterMap]
  refine congrArg (List.filterMap · _) (funext fun p => ?_)
  by_cases hp : p.1 = c <;> simp [hp]

end

/-- From one moment to another, of either kind: what waited and was posted since is what was taken,
in the same order, and then what waits. Whatever waited when a run was launched is gone. -/
structure Conserves (q : SignalQueue) (ws : List (Happening κ × Bool)) (q' : SignalQueue) :
    Prop where
  kept : .launched ∉ ws.map Prod.fst →
    ∀ d, q.waiting d ++ sent d ws = served d ws ++ q'.waiting d
  cleared : ∀ ws₁ ws₂ idle, ws = ws₁ ++ (.launched, idle) :: ws₂ → .launched ∉ ws₂.map Prod.fst →
    ∀ d, sent d ws₂ = served d ws₂ ++ q'.waiting d

namespace Conserves
variable {ws ws' : List (Happening κ × Bool)} {q q' q'' : SignalQueue}

theorem of_not_launched (hl : .launched ∉ ws.map Prod.fst)
    (h : ∀ d, q.waiting d ++ sent d ws = served d ws ++ q'.waiting d) : Conserves q ws q' := by
  refine ⟨fun _ => h, ?_⟩
  rintro ws₁ ws₂ idle rfl -
  exact absurd (by simp) hl

theorem of_not_traffic (h : ∀ w ∈ ws, w.1.traffic = false) : Conserves q ws q := by
  refine .of_not_launched (fun hl => ?_) fun d => ?_
  · obtain ⟨w, hw, he⟩ := List.mem_map.mp hl
    exact absurd (h w hw) (by simp [he, Happening.traffic])
  · rw [sent_of_not_traffic h, served_of_not_traffic h, List.append_nil, List.nil_append]

theorem refl (q : SignalQueue) : Conserves q ([] : List (Happening κ × Bool)) q :=
  .of_not_traffic (List.forall_mem_nil _)

theorem trans (h : Conserves q ws q') (h' : Conserves q' ws' q'') :
    Conserves q (ws ++ ws') q'' where
  kept hl d := by
    rw [List.map_append, List.mem_append, not_or] at hl
    rw [sent_append, served_append, ← List.append_assoc, h.kept hl.1, List.append_assoc,
      h'.kept hl.2, List.append_assoc]
  cleared ws₁ ws₂ idle he hl d := by
    rcases List.append_eq_append_iff.mp he with ⟨as, rfl, he'⟩ | ⟨as, hws, he'⟩
    · exact h'.cleared as ws₂ idle he' hl d
    · cases as with
      | nil => exact h'.cleared [] ws₂ idle he'.symm hl d
      | cons w as =>
        -- The last run was launched before the moment in between.
        obtain ⟨rfl, hws₂⟩ := List.cons.inj he'
        obtain rfl : ws₂ = as ++ ws' := hws₂
        rw [List.map_append, List.mem_append, not_or] at hl
        rw [sent_append, served_append, h.cleared ws₁ as idle hws hl.1, List.append_assoc,
          h'.kept hl.2, List.append_assoc]

end Conserves

end Engine

namespace Site
open Engine

/-- What an impulse does to the queue of a context, and whether the context is left with a
driver. -/
inductive Traffic (x : Site κ) (i : Impulse κ) (y : Site κ) (hs : List (Happening κ)) : Prop
  | none (ht : ∀ h ∈ hs, h.traffic = false) (hq : y.context.queue = x.context.queue)
    (hm : y.context.machine.isSome = x.context.machine.isSome)
    (hr : y.stage = .none →
      x.stage = .none ∨ (∃ run, i = .user .panic run) ∨ x.context.queue.pop? = .none)
  | posted (s : Signal) (deferred : Bool) (he : hs = [.posted s deferred])
    (hq : y.context.queue = x.context.queue.push s deferred)
    (hm : y.context.machine.isSome = x.context.machine.isSome) (hr : y.stage ≠ .none)
  | launched {s : Sequence κ} {run : Nat} (hi : i = .user (.launch s) run)
    (ha : accepts x.context = true) (hn : x.stage = .none)
    (he : hs = [.launched, .posted .next false])
    (hq : y.context.queue = ({} : SignalQueue).push .next false)
    (hm : y.context.machine.isSome = true) (hr : y.stage ≠ .none)
  | taken {s : Signal} {applied : Bool} {hs' : List (Happening κ)} (hi : i = .drive)
    (hp : x.stage = some .poll) (he : hs = .taken s applied :: hs')
    (ht : ∀ h ∈ hs', h.traffic = false) (hq : x.context.queue.pop? = some (s, y.context.queue))
    (hm : y.context.machine.isSome = x.context.machine.isSome) (hr : y.stage ≠ .none)

section
variable {x y : Site κ} {ws ws' : List (Happening κ × Bool)} {hs : List (Happening κ)}
  {i : Impulse κ}

theorem follow_traffic (y : Context κ) (u : Turn κ) :
    (follow y u).1.context.queue = y.queue ∧ (follow y u).1.stage ≠ none ∧
      (follow y u).1.context.machine = some u.machine ∧
      ∀ h ∈ (follow y u).2, h.traffic = false := by
  have hn : ∀ h ∈ u.notices.filterMap Notice.happening?, (h : Happening κ).traffic = false := by
    intro h hh
    obtain ⟨d, rfl⟩ := Notice.exists_report hh
    rfl
  unfold follow
  cases u.act with
  | work | settle => exact ⟨rfl, Option.some_ne_none _, rfl, hn⟩
  | call | resolve =>
    refine ⟨rfl, Option.some_ne_none _, rfl, List.forall_mem_append.mpr ⟨hn, ?_⟩⟩
    simp [Happening.traffic]
  | finished o handler =>
    cases handler <;>
      refine ⟨rfl, Option.some_ne_none _, rfl, List.forall_mem_append.mpr ⟨hn, ?_⟩⟩ <;>
      simp [Happening.traffic]

theorem Traffic.still (hq : y.context.queue = x.context.queue)
    (hm : y.context.machine.isSome = x.context.machine.isSome) (hr : y.stage ≠ .none) :
    Traffic x i y [] := .none (List.forall_mem_nil _) hq hm fun hn => absurd hn hr

theorem traffic_drive (y : Context κ) (stage : Stage κ) :
    Traffic ⟨y, some stage⟩ .drive (drive y stage).1 (drive y stage).2 := by
  cases stage with
  | calling | choosing => exact .still rfl rfl (Option.some_ne_none _)
  | moving t windingUp =>
    cases hm : y.machine with
    | none =>
      rw [drive_moving_none hm]
      exact .still rfl rfl (Option.some_ne_none _)
    | some m =>
      rw [drive_moving hm]
      obtain ⟨hq, hst, hm', ht⟩ := follow_traffic y (m.turn t windingUp)
      exact .none ht hq (by rw [hm', hm]; rfl) fun hn => absurd hn hst
  | settle =>
    cases hp : y.machine.bind (·.parked) with
    | none =>
      rw [drive_settle_rest hp]
      exact .still rfl rfl (Option.some_ne_none _)
    | some p =>
      rw [drive_settle_parked hp]
      exact .still rfl (by simp) (Option.some_ne_none _)
  | poll =>
    cases hq : y.queue.pop? with
    | none =>
      rw [drive_poll_empty hq]
      exact .none (List.forall_mem_nil _) rfl rfl fun _ => .inr (.inr hq)
    | some p =>
      obtain ⟨s, q⟩ := p
      cases hm : y.machine with
      | some m =>
        rw [drive_poll_applied hq hm]
        exact .taken rfl rfl rfl (List.forall_mem_nil _) hq rfl (Option.some_ne_none _)
      | none =>
        rw [drive_poll_dropped hq hm]
        exact .taken rfl rfl rfl (by simp [Happening.traffic]) hq rfl (Option.some_ne_none _)

theorem traffic_react (hx : x.Tracked) (hi : x.Admits i) :
    Traffic x i (x.react i).1 (x.react i).2 := by
  cases i with
  | user doing run =>
    cases doing with
    | panic => exact .none (List.forall_mem_nil _) rfl rfl fun _ => .inr (.inl ⟨run, rfl⟩)
    | post s deferred =>
      refine .posted s deferred rfl rfl rfl fun hn => ?_
      have hd : x.context.driving = x.stage.isSome := hx.driving
      cases hs : x.stage <;> simp [Site.react, hd, hs] at hn
    | launch s =>
      by_cases ha : accepts x.context = true
      · have hn : x.stage = none := by
          rw [← Option.not_isSome_iff_eq_none, ← hx.driving]
          simpa using (Bool.and_eq_true_iff.mp ha).1
        rw [react_launch_of_accepts ha]
        exact .launched rfl ha hn rfl rfl (by simp [fresh]) (Option.some_ne_none _)
      · rw [react_launch_of_not_accepts ha]
        exact .none (by simp [Happening.traffic]) rfl rfl .inl
    | answer text =>
      obtain ⟨stage, hs, hc⟩ := hi
      simp only [Site.react, hs]
      cases stage with
      | poll | moving | settle => exact absurd hc not_false
      | calling => exact .still rfl rfl (Option.some_ne_none _)
      | choosing => exact .still rfl (by simp) (Option.some_ne_none _)
  | drive =>
    obtain ⟨context, stage⟩ := x
    obtain ⟨stage, rfl, -⟩ := hi
    exact traffic_drive context stage

theorem Traffic.conserves (h : Traffic x i y hs) :
    Conserves x.context.queue (hs.map (·, x.context.queue.immediate.isEmpty)) y.context.queue := by
  cases h with
  | none ht hq =>
    rw [hq]
    exact .of_not_traffic (by simpa using ht)
  | posted s deferred he hq =>
    subst he
    refine .of_not_launched (by simp) fun d => ?_
    rw [hq, SignalQueue.waiting_push]
    by_cases hd : deferred = d <;> simp [sent, served, Happening.posted?, Happening.taken?, hd]
  | launched hi ha hn he hq =>
    subst he
    refine ⟨fun hl => absurd (by simp) hl, fun ws₁ ws₂ idle he hl d => ?_⟩
    obtain rfl : ws₂ = [(.posted .next false, idle)] := by
      cases ws₁ with
      | nil =>
        obtain ⟨hw, hws⟩ := List.cons.inj he
        rw [← (Prod.mk.inj hw).2]
        exact hws.symm
      | cons w ws₁ => cases ws₁ <;> simp_all
    rw [hq, SignalQueue.waiting_push]
    cases d <;> simp [sent, served, Happening.posted?, Happening.taken?]
  | @taken s applied hs' hi hp he ht hq =>
    subst he
    have ht' : ∀ w ∈ hs'.map (·, x.context.queue.immediate.isEmpty), w.1.traffic = false := by
      simpa using ht
    have htaken : Conserves x.context.queue
        [((.taken s applied : Happening κ), x.context.queue.immediate.isEmpty)]
        y.context.queue := by
      refine .of_not_launched (by simp) fun d => ?_
      rw [SignalQueue.waiting_of_pop? hq]
      cases x.context.queue.immediate.isEmpty <;> cases d <;>
        simp [sent, served, Happening.posted?, Happening.taken?]
    exact htaken.trans (.of_not_traffic ht')

theorem Traffic.launch_of_launched (h : Traffic x i y hs) (hl : .launched ∈ hs) :
    ∃ s run, i = .user (.launch s) run ∧ accepts x.context = true := by
  cases h with
  | none ht => exact absurd (ht _ hl) nofun
  | posted s deferred he => simp [he] at hl
  | launched hi ha => exact ⟨_, _, hi, ha⟩
  | taken hi hp he ht =>
    rw [he, List.mem_cons] at hl
    exact absurd (ht _ (hl.resolve_left nofun)) nofun

theorem Traffic.machine (h : Traffic x i y hs) (hl : .launched ∉ hs) :
    y.context.machine.isSome = x.context.machine.isSome := by
  cases h with
  | none ht hq hm => exact hm
  | posted s deferred he hq hm => exact hm
  | launched hi ha hn he => exact absurd (by simp [he]) hl
  | taken hi hp he ht hq hm => exact hm

theorem Traffic.stage_of_taken {s : Signal} {applied : Bool} (h : Traffic x i y hs)
    (ht : .taken s applied ∈ hs) : i = .drive ∧ x.stage = some .poll := by
  cases h with
  | none ht' => exact absurd (ht' _ ht) nofun
  | posted s deferred he => simp [he] at ht
  | launched hi ha hn he => simp [he] at ht
  | taken hi hp => exact ⟨hi, hp⟩

/-- Of either kind, what was posted is what was taken, in the same order, and then what waits.
Nothing waits unless there is a driver, and there is a machine once a run was launched. -/
structure Orderly (x : Site κ) (ws : List (Happening κ × Bool)) : Prop where
  queue : ∀ d, sent d ws = served d ws ++ x.context.queue.waiting d
  rest : x.stage = none → x.context.queue = {}
  machine : x.context.machine.isSome = true ↔ .launched ∈ ws.map Prod.fst

theorem Orderly.append (h : x.Orderly ws) (hl : .launched ∉ ws'.map Prod.fst)
    (hc : Conserves x.context.queue ws' y.context.queue)
    (hm : y.context.machine.isSome = x.context.machine.isSome)
    (hr : y.stage = none → y.context.queue = {}) : y.Orderly (ws ++ ws') where
  queue d := by
    rw [sent_append, served_append, h.queue, List.append_assoc, hc.kept hl, List.append_assoc]
  rest := hr
  machine := by rw [hm, h.machine, List.map_append, List.mem_append, or_iff_left hl]

theorem Orderly.react (h : x.Orderly ws) (hx : x.Tracked) (hi : x.Admits i)
    (hp : ∀ run, i ≠ .user .panic run) :
    (x.react i).1.Orderly
      (ws ++ (x.react i).2.map (·, x.context.queue.immediate.isEmpty)) := by
  have ht := traffic_react hx hi
  have hc := ht.conserves
  generalize x.react i = r at ht hc ⊢
  obtain ⟨y, hs⟩ := r
  have quiet {hs : List (Happening κ)} (hs' : ∀ h ∈ hs, h.traffic = false) :
      .launched ∉ (hs.map (·, x.context.queue.immediate.isEmpty)).map Prod.fst := by
    intro hl
    simp only [List.map_map, Function.comp_def, List.map_id'] at hl
    exact absurd (hs' _ hl) nofun
  cases ht with
  | none ht hq hm hr =>
    refine h.append (quiet ht) hc hm fun hn => ?_
    rw [show y.context.queue = x.context.queue from hq]
    rcases hr hn with hn | ⟨run, rfl⟩ | hq
    · exact h.rest hn
    · exact absurd rfl (hp run)
    · exact SignalQueue.eq_empty_of_pop? hq
  | posted s deferred he hq hm hr =>
    obtain rfl : hs = _ := he
    exact h.append (by simp) hc hm fun hn => absurd hn hr
  | @taken s applied hs' hi hp he ht hq hm hr =>
    obtain rfl : hs = _ := he
    have hl := quiet ht
    refine h.append ?_ hc hm fun hn => absurd hn hr
    rw [List.map_cons, List.map_cons, List.mem_cons, not_or]
    exact ⟨nofun, hl⟩
  | launched hi ha hn he hq hm hr =>
    obtain rfl : hs = _ := he
    refine ⟨fun d => ?_, fun hn => absurd hn hr, ?_⟩
    · -- No driver was there, so no signal is lost with the queue that is cleared.
      have hd := h.queue d
      rw [h.rest hn, SignalQueue.waiting_empty, List.append_nil] at hd
      have hq : y.context.queue = _ := hq
      rw [sent_append, served_append, hd, hq, SignalQueue.waiting_push]
      cases d <;> simp [sent, served, Happening.posted?, Happening.taken?]
    · have hm : y.context.machine.isSome = true := hm
      simp [hm]

end

end Site

namespace Engine
variable {host : Host κ σ ε} {a b : Config κ σ ε} {w : World κ σ} {c : ContextId}
  {ws : List (ContextId × Happening κ × Bool)} {es : List (Event κ ε)}
  {rest : List (Activation κ σ ε)} {s : Signal} {q : SignalQueue}

theorem Watched.reachable (h : Watched host b ws) : ∃ log, Reachable host b log := by
  induction h with
  | start s k => exact ⟨_, .start s k⟩
  | step _ _ hs ih =>
    obtain ⟨log, ih⟩ := ih
    exact ⟨_, ih.step hs⟩
  | returned _ hs k ih =>
    obtain ⟨log, ih⟩ := ih
    exact ⟨_, ih.returned hs k⟩

theorem Watched.tracked (h : Watched host b ws) : b.Tracked := by
  obtain ⟨log, hr⟩ := h.reachable
  exact hr.tracked.1

theorem stack_of_panic {run : Nat} (h : deed? b = some (c, .user .panic run)) :
    ∃ rest, b.stack = .code .panic :: rest := by
  unfold deed? at h
  split at h <;> simp_all

theorem stack_of_drive (h : deed? b = some (c, .drive)) :
    ∃ stage rest, b.stack = .driver c stage :: rest := by
  unfold deed? at h
  split at h <;> simp_all

theorem Watched.orderly (h : Watched host b ws) (c : ContextId) :
    (site c b).Orderly (share c ws) := by
  induction h with
  | start s k =>
    exact ⟨fun d => (SignalQueue.waiting_empty d).symm, fun _ => rfl, by simp [site]; rfl⟩
  | @step a b ws es h calm hs ih =>
    rw [share_append, share_sightings]
    rcases site_step h.tracked hs c with ⟨-, hx, hh⟩ | ⟨i, hd, -, hi, hr⟩
    · rwa [hx, hh, List.map_nil, List.append_nil]
    · have hp : ∀ run, i ≠ .user .panic run := by
        rintro run rfl
        obtain ⟨rest, hstack⟩ := stack_of_panic hd
        exact calm rest hstack
      have ho := ih.react (h.tracked.contexts c) hi hp
      rwa [hr] at ho
  | returned h hs k ih => rwa [site_returned h.tracked hs]

/-- The step takes a signal off the queue of a context. No signal is being applied to its run, for
its only driver is the one that takes it; then the signal is applied or, if no run was ever
launched, is reported and dropped. -/
def Takes (c : ContextId) (s : Signal) (ws : List (Happening κ × Bool)) (b b' : Config κ σ ε)
    (es : List (Event κ ε)) : Prop :=
  (b.world.context c).queue.pop? = some (s, (b'.world.context c).queue) ∧
  ∃ rest, b.stack = .driver c .poll :: rest ∧ (∀ stage, .driver c stage ∉ rest) ∧
    (.launched ∈ ws.map Prod.fst ∧ (b.world.context c).machine.isSome = true ∧
        es = [.taken c s true] ∧ b'.stack = .driver c (.moving s.task false) :: rest ∨
      .launched ∉ ws.map Prod.fst ∧
        es = [.taken c s false, .reported c (.signalDropped s.name)] ∧
        b'.stack = .driver c .poll :: rest)

theorem step_poll_cases {b' : Config κ σ ε}
    (hs : step host ⟨w, .driver c .poll :: rest⟩ = .more b' es) :
    es = [] ∨ ∃ s, (w.context c).queue.pop? = some (s, (b'.world.context c).queue) ∧
      ((w.context c).machine.isSome = true ∧ es = [.taken c s true] ∧
          b'.stack = .driver c (.moving s.task false) :: rest ∨
        (w.context c).machine = none ∧
          es = [.taken c s false, .reported c (.signalDropped s.name)] ∧
          b'.stack = .driver c .poll :: rest) := by
  have hs : drive host w c rest .poll = .more b' es := hs
  unfold drive at hs
  dsimp only at hs
  cases hq : (w.context c).queue.pop? with
  | none =>
    rw [hq] at hs
    exact .inl (Progress.more.inj hs).2.symm
  | some p =>
    obtain ⟨s, q⟩ := p
    rw [hq] at hs
    refine .inr ⟨s, ?_⟩
    cases hm : (w.context c).machine with
    | some m =>
      rw [hm] at hs
      obtain ⟨rfl, rfl⟩ := Progress.more.inj hs
      exact ⟨by rw [World.context_setContext_self], .inl ⟨rfl, rfl, rfl⟩⟩
    | none =>
      rw [hm] at hs
      obtain ⟨rfl, rfl⟩ := Progress.more.inj hs
      exact ⟨by rw [World.context_setContext_self], .inr ⟨rfl, rfl, rfl⟩⟩

theorem cases_of_taken {b' : Config κ σ ε} {applied : Bool} (hb : b.Tracked)
    (hs : step host b = .more b' es) (ht : .taken s applied ∈ happenings c es) :
    (b.world.context c).queue.pop? = some (s, (b'.world.context c).queue) ∧
      ∃ rest, b.stack = .driver c .poll :: rest ∧
        ((b.world.context c).machine.isSome = true ∧ es = [.taken c s true] ∧
            b'.stack = .driver c (.moving s.task false) :: rest ∨
          (b.world.context c).machine = none ∧
            es = [.taken c s false, .reported c (.signalDropped s.name)] ∧
            b'.stack = .driver c .poll :: rest) := by
  rcases site_step hb hs c with ⟨-, -, hh⟩ | ⟨i, hd, -, hi, hr⟩
  · rw [hh] at ht
    exact absurd ht List.not_mem_nil
  have htraffic := Site.traffic_react (x := site c b) (hb.contexts c) hi
  rw [hr] at htraffic
  obtain ⟨rfl, hstage⟩ := htraffic.stage_of_taken ht
  obtain ⟨w, stack⟩ := b
  obtain ⟨stage, rest, rfl⟩ := stack_of_drive hd
  obtain rfl : stage = .poll := by
    simpa only [site, stage?_driver_self, Option.some.injEq] using hstage
  rcases step_poll_cases hs with rfl | ⟨s', hq, hcases⟩
  · exact absurd ht List.not_mem_nil
  · obtain ⟨rfl, -⟩ : s = s' ∧ applied = (w.context c).machine.isSome := by
      rcases hcases with ⟨hw, rfl, -⟩ | ⟨hw, rfl, -⟩ <;>
        simpa [happenings, share, Event.place, hw] using ht
    exact ⟨hq, rest, rfl, hcases⟩

theorem takes_of_taken {b' : Config κ σ ε} {applied : Bool} (h : Watched host b ws)
    (hs : step host b = .more b' es) (ht : .taken s applied ∈ happenings c es) :
    Takes c s (share c ws) b b' es := by
  have hm := (h.orderly c).machine
  obtain ⟨hq, rest, hstack, hcases⟩ := cases_of_taken h.tracked hs ht
  have hrest : ∀ stage, .driver c stage ∉ rest := by
    have hl := h.tracked.layers
    rw [hstack] at hl
    obtain ⟨k, r, rfl⟩ := hl.exists_code
    exact stage?_eq_none_iff.mp hl.2.1
  refine ⟨hq, rest, hstack, hrest, ?_⟩
  rcases hcases with ⟨hw, he⟩ | ⟨hw, he⟩
  · exact .inl ⟨hm.mp hw, hw, he⟩
  · refine .inr ⟨fun hl => ?_, he⟩
    exact absurd (Option.isSome_iff_ne_none.mp (hm.mpr hl)) (not_not_intro hw)

/-- Signals while nothing panics, at every context and however drivers of several contexts are
nested. -/
theorem driver_discipline (h : Watched host b ws) (c : ContextId) :
    (∀ deferred, sent deferred (share c ws) =
      served deferred (share c ws) ++ (b.world.context c).queue.waiting deferred) ∧
    (∀ b' es s applied, step host b = .more b' es → .taken s applied ∈ happenings c es →
      Takes c s (share c ws) b b' es) ∧
    ((∀ stage, .driver c stage ∉ b.stack) →
      (b.world.context c).queue = {} ∧ (b.world.context c).driving = false ∧
        ∀ deferred, sent deferred (share c ws) = served deferred (share c ws)) := by
  have ho := h.orderly c
  refine ⟨ho.queue, fun b' es s applied hs ht => takes_of_taken h hs ht, fun hn => ?_⟩
  have hn := stage?_eq_none_iff.mpr hn
  have hq : (b.world.context c).queue = {} := ho.rest hn
  refine ⟨hq, ?_, fun d => ?_⟩
  · rw [(h.tracked.contexts c).driving, hn]
    rfl
  · have hd := ho.queue d
    rwa [show (site c b).context.queue = {} from hq, SignalQueue.waiting_empty,
      List.append_nil] at hd

def hasty : Host Unit Unit Unit
  | .operation _ _, c =>
    .post c .leave true (.post (c + 1) .next false (.post c .finish false (.done "")))
  | _, _ => .done ""

theorem driver_discipline_hasty :
    ∃ b ws, Watched hasty b ws ∧ b.stack = [.code (.done "")] ∧
      (share 0 ws).filterMap (·.1.taken?) = [.next, .finish, .leave] ∧
      (share 1 ws).filterMap (·.1.taken?) = [.next] ∧
      ∀ c, (b.world.context c).queue = {} ∧ (b.world.context c).driving = false ∧
        ∀ deferred, sent deferred (share c ws) = served deferred (share c ws) := by
  have h0 : Watched hasty _ _ :=
    .start () (.launch 0 { entries := [.method { operation := () }] } (.done ""))
  have h4 : Watched hasty _ _ :=
    (((h0.step nofun rfl).step nofun rfl).step nofun rfl).step nofun rfl
  -- The operation posts its signals; the one for the other context is dropped on the spot.
  have h9 : Watched hasty _ _ :=
    ((((h4.step nofun rfl).step nofun rfl).step nofun rfl).step nofun rfl).step nofun rfl
  have h13 : Watched hasty _ _ :=
    (((h9.step nofun rfl).step nofun rfl).step nofun rfl).step nofun rfl
  have h : Watched hasty _ _ :=
    ((((h13.step nofun rfl).step nofun rfl).step nofun rfl).step nofun rfl).step nofun rfl
  refine ⟨_, _, h, rfl, rfl, rfl, fun c => (driver_discipline h c).2.2 nofun⟩

end Engine
end Sequencer
