import Sequencer.Proofs.Engine.Queueing

/-! Between two signals of a context. Until the next one is taken its run goes on from turn to turn,
and whatever is posted to the context is put into the queue and waits there. -/

namespace Sequencer
variable {κ σ ε : Type}

namespace SignalQueue

def pushAll (q : SignalQueue) (ps : List (Signal × Bool)) : SignalQueue :=
  ps.foldl (fun q p => q.push p.1 p.2) q

theorem pushAll_append (q : SignalQueue) (ps ps' : List (Signal × Bool)) :
    q.pushAll (ps ++ ps') = (q.pushAll ps).pushAll ps' := List.foldl_append

theorem waiting_pushAll (q : SignalQueue) (ps : List (Signal × Bool)) (d : Bool) :
    (q.pushAll ps).waiting d = q.waiting d ++ (ps.filter (·.2 = d)).map Prod.fst := by
  induction ps generalizing q with
  | nil => exact (List.append_nil _).symm
  | cons p ps ih =>
    have hpush : (q.pushAll (p :: ps)).waiting d = ((q.push p.1 p.2).pushAll ps).waiting d := rfl
    rw [hpush, ih, waiting_push, List.append_assoc]
    by_cases hp : p.2 = d <;> simp [hp]

theorem eq_of_pop?_pushAll {q : SignalQueue} {s s' : Signal} {deferred : Bool}
    {ps : List (Signal × Bool)}
    (h : ((({} : SignalQueue).push s' deferred).pushAll ps).pop? = some (s, q))
    (hps : deferred = false ∨ ∀ p ∈ ps, p.2 = true) : s = s' := by
  have hfirst := waiting_of_pop? h deferred
  have hwaiting (d : Bool) := waiting_pushAll (({} : SignalQueue).push s' deferred) ps d
  simp only [waiting_push, waiting_empty, List.nil_append] at hwaiting
  have hkind : ((({} : SignalQueue).push s' deferred).pushAll ps).immediate.isEmpty = deferred := by
    have himmediate := hwaiting false
    rw [waiting, if_neg Bool.false_ne_true] at himmediate
    cases deferred with
    | false => simp [himmediate]
    | true =>
      have hlate := hps.resolve_left (by simp)
      rw [himmediate, List.isEmpty_iff]
      simpa using fun s hs => hlate (s, false) hs
  rw [hwaiting, if_pos rfl, if_pos hkind] at hfirst
  exact (List.cons.inj hfirst).1.symm

end SignalQueue

def Happening.post? : Happening κ → Option (Signal × Bool)
  | .posted s deferred => some (s, deferred)
  | _ => none

def posts (hs : List (Happening κ)) : List (Signal × Bool) := hs.filterMap Happening.post?

theorem posts_append (hs hs' : List (Happening κ)) : posts (hs ++ hs') = posts hs ++ posts hs' :=
  List.filterMap_append

/-- The signal has led the run to where the next one may be taken. -/
def Machine.LeadsTo (m : Machine κ) (s : Signal) (m' : Machine κ) : Prop :=
  ∃ us v, Turn.Path (m.receive s) us v ∧ v.Idle ∧ v.machine = m'

namespace Site
open Engine

theorem Traffic.queue_eq_pushAll {x y : Site κ} {i : Impulse κ} {hs : List (Happening κ)}
    (h : Traffic x i y hs) (hl : .launched ∉ hs) (hn : ∀ s applied, .taken s applied ∉ hs) :
    y.context.queue = x.context.queue.pushAll (posts hs) := by
  cases h with
  | none ht hq =>
    have hp : posts hs = [] := by
      refine List.filterMap_eq_nil_iff.mpr fun h hh => ?_
      cases h with
      | posted => exact absurd (ht _ hh) (by simp [Happening.traffic])
      | _ => rfl
    rw [hq, hp]
    rfl
  | posted s deferred he hq =>
    rw [hq, he]
    rfl
  | launched hi ha hs he => exact absurd (by simp [he]) hl
  | @taken s applied hs' hi hp he => exact absurd (by simp [he]) (hn s applied)

/-- The run has come as far as the driver says on a path from the turn. -/
def Along (x : Site κ) (u : Turn κ) : Prop :=
  ∃ us v, Turn.Path u us v ∧ x.context.machine = some v.machine ∧ Attends x.stage v

section
variable {x y : Site κ} {u v w : Turn κ} {us : List (Turn κ)} {i : Impulse κ}

theorem Along.of_path (h : y.Along v) (path : Turn.Path u us v) : y.Along u := by
  obtain ⟨vs, w, path', hm, ha⟩ := h
  exact ⟨us ++ vs, w, path.trans path', hm, ha⟩

theorem along_next (path : Turn.Path u us v) (hn : Turn.Next v w)
    (hm : y.context.machine = some w.machine) (ha : Attends y.stage w) : y.Along u :=
  Along.of_path ⟨[v], w, .cons hn (.refl w), hm, ha⟩ path

theorem along_follow (c : Context κ) (u : Turn κ) : (follow c u).1.Along u := by
  obtain ⟨m, ns, act⟩ := u
  cases act with
  | work | settle => exact ⟨[], _, .refl _, rfl, rfl⟩
  | call k => exact ⟨[], _, .refl _, rfl, .inl ⟨k, rfl⟩⟩
  | resolve r ps => exact ⟨[], _, .refl _, rfl, r, ps, rfl⟩
  | finished o handler =>
    cases handler with
    | none => exact along_next (.refl _) .told rfl rfl
    | some h => exact ⟨[], _, .refl _, rfl, .inr ⟨o, some h, rfl⟩⟩

/-- Whatever comes to the context before its next signal is taken, the run goes on along its
path. -/
theorem Along.react (h : x.Along u) (hx : x.Tracked) (hi : x.Admits i)
    (hl : .launched ∉ (x.react i).2) (hn : ∀ s applied, .taken s applied ∉ (x.react i).2) :
    (x.react i).1.Along u := by
  obtain ⟨us, ⟨m, ns, act⟩, path, hm, ha⟩ := h
  cases i with
  | user doing run =>
    cases doing with
    | post s deferred =>
      have hd : x.context.driving = x.stage.isSome := hx.driving
      cases hs : x.stage with
      | none =>
        rw [hs] at hd ha
        rw [react_post_of_not_driving hd]
        exact ⟨us, _, path, hm, ha⟩
      | some stage =>
        rw [hs] at hd
        rw [react_post_of_driving hd]
        exact ⟨us, _, path, hm, ha⟩
    | launch s =>
      by_cases hacc : accepts x.context = true
      · rw [react_launch_of_accepts hacc] at hl
        exact absurd (List.mem_cons_self ..) hl
      · rw [react_launch_of_not_accepts hacc]
        exact ⟨us, _, path, hm, ha⟩
    | panic =>
      obtain ⟨stage, hs, hc⟩ := hi
      rw [hs] at ha
      exact ⟨us, _, path, hm, ha.idle_of_inCall hc⟩
    | answer text =>
      obtain ⟨stage, hs, hc⟩ := hi
      rw [hs] at ha
      simp only [Site.react, hs]
      cases stage with
      | poll | moving | settle => exact absurd hc not_false
      | calling =>
        rcases ha with ⟨k, rfl⟩ | ⟨o, handler, rfl⟩
        · exact along_next path .called hm rfl
        · exact along_next path .told hm rfl
      | choosing =>
        obtain ⟨r, ps, rfl⟩ := ha
        exact along_next path (.resolved text) (by rw [hm]; rfl) rfl
  | drive =>
    obtain ⟨stage, hs, hc⟩ := hi
    rw [hs] at ha
    rw [react_drive hs] at hn ⊢
    cases stage with
    | calling | choosing => exact absurd trivial hc
    | moving t windingUp =>
      obtain rfl : act = .work t windingUp := ha
      rw [drive_moving hm]
      exact (along_follow x.context _).of_path (path.trans (.cons .work (.refl _)))
    | settle =>
      obtain rfl : act = .settle := ha
      cases hp : m.parked with
      | none =>
        rw [drive_settle_rest (by rw [hm]; exact hp)]
        exact ⟨us, _, path, hm, hp⟩
      | some p =>
        rw [drive_settle_parked (p := p) (by rw [hm]; exact hp)]
        exact along_next path (.unpark hp) (by rw [hm]; rfl) rfl
    | poll =>
      cases hq : x.context.queue.pop? with
      | none =>
        rw [drive_poll_empty hq]
        exact ⟨us, _, path, hm, ha⟩
      | some p =>
        rw [drive_poll_applied hq hm] at hn
        exact absurd (List.mem_singleton_self _) (hn p.1 true)

theorem Along.launched_not_mem (h : x.Along u) (hx : x.Tracked) (hi : x.Admits i)
    (hf : ∀ us v, Turn.Path u us v → v.machine.isFinished = false) : .launched ∉ (x.react i).2 := by
  intro hl
  obtain ⟨us, v, path, hm, -⟩ := h
  obtain ⟨s, run, -, ha⟩ := (traffic_react hx hi).launch_of_launched hl
  simp [accepts, hm, hf us v path] at ha

end
end Site

namespace Engine
variable {host : Host κ σ ε} {a b : Config κ σ ε} {ds : List (ContextId × Impulse κ)}
  {es : List (Event κ ε)} {c : ContextId} {u : Turn κ}

theorem Course.along (ha : a.Tracked) (h : Course host a ds es b) (hu : (site c a).Along u)
    (hl : .launched ∉ happenings c es) (hn : ∀ s applied, .taken s applied ∉ happenings c es) :
    (site c b).Along u ∧
      (b.world.context c).queue =
        (a.world.context c).queue.pushAll (posts (happenings c es)) := by
  refine h.induct_site (motive := fun x _ hs => .launched ∉ hs →
    (∀ s applied, .taken s applied ∉ hs) → x.Along u ∧
      x.context.queue = (a.world.context c).queue.pushAll (posts hs)) ha c
    (fun _ _ => ⟨hu, rfl⟩) ?_ hl hn
  intro x is hs i hx hi ih hl hn
  simp only [List.mem_append, not_or] at hl hn
  obtain ⟨halong, hq⟩ := ih hl.1 fun s applied => (hn s applied).1
  have hn := fun s applied => (hn s applied).2
  refine ⟨halong.react hx hi hl.2 hn, ?_⟩
  rw [(Site.traffic_react hx hi).queue_eq_pushAll hl.2 hn, hq, posts_append,
    SignalQueue.pushAll_append]

theorem Course.launched_not_mem (ha : a.Tracked) (h : Course host a ds es b)
    (hu : (site c a).Along u) (hf : ∀ us v, Turn.Path u us v → v.machine.isFinished = false)
    (hn : ∀ s applied, .taken s applied ∉ happenings c es) : .launched ∉ happenings c es := by
  have hboth := h.induct_site (motive := fun x _ hs => (∀ s applied, .taken s applied ∉ hs) →
    .launched ∉ hs ∧ x.Along u) ha c (fun _ => ⟨List.not_mem_nil, hu⟩) ?_
  · exact (hboth hn).1
  intro x is hs i hx hi ih hn
  simp only [List.mem_append, not_or] at hn ⊢
  obtain ⟨hl, halong⟩ := ih fun s applied => (hn s applied).1
  have hl' := halong.launched_not_mem hx hi hf
  exact ⟨⟨hl, hl'⟩, halong.react hx hi hl' fun s applied => (hn s applied).2⟩

end Engine
end Sequencer
