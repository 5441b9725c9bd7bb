import Sequencer.Proofs.Engine.Layers

/-! Every step keeps track of all runs: what holds of the turns of a run holds of the machines in
the contexts, whoever posts signals and whatever user code does. -/

namespace Sequencer
variable {κ σ ε : Type}

/-- However the step ends, all runs are still tracked, and nothing broken was reported. -/
def Progress.Sound : Progress κ σ ε → Prop
  | .more cfg es => cfg.Tracked ∧ ∀ c d, .reported c d ∈ es → ¬ d.Broken
  | .returned w _ | .panicked w => ∀ k : Code κ σ ε, Config.Tracked ⟨w, [.code k]⟩

namespace Context
variable {x y : Context κ} {stage stage' : Option (Stage κ)}

theorem Tracked.congr (h : x.Tracked stage) (hd : y.driving = x.driving)
    (hm : y.machine = x.machine) : y.Tracked stage :=
  ⟨hd.trans h.driving, fun m hy => h.machine m (hm ▸ hy)⟩

theorem tracked_of_occurs {u : Turn κ} (hu : u.Occurs) (ha : Engine.Attends stage u)
    (hd : x.driving = stage.isSome) (hm : x.machine = some u.machine) : x.Tracked stage := by
  refine ⟨hd, fun m h => ⟨u, hu, ?_, ha⟩⟩
  exact Option.some.inj (hm.symm.trans h)

theorem Tracked.of_none (hd : x.driving = stage.isSome) (hm : x.machine = none) :
    x.Tracked stage := by
  refine ⟨hd, fun m h => ?_⟩
  rw [hm] at h
  exact absurd h nofun

end Context

namespace Engine
variable {host : Host κ σ ε} {w : World κ σ} {c : ContextId} {stage : Stage κ}
  {rest : List (Activation κ σ ε)} {k k' : Code κ σ ε}

theorem sound_goOn {w : World κ σ} {stack : List (Activation κ σ ε)} {es : List (Event κ ε)}
    (h : Config.Tracked ⟨w, stack⟩) (hes : ∀ c d, .reported c d ∈ es → ¬ d.Broken) :
    (goOn w stack es).Sound := ⟨h, hes⟩

theorem driving_of_tracked (h : Config.Tracked ⟨w, .driver c stage :: rest⟩) :
    (w.context c).driving = true := by
  rw [(h.contexts c).driving, stage?_driver_self]
  rfl

theorem turn_of_tracked (h : Config.Tracked ⟨w, .driver c stage :: rest⟩) {m : Machine κ}
    (hm : (w.context c).machine = some m) :
    ∃ u : Turn κ, u.Occurs ∧ u.machine = m ∧ Attends (some stage) u := by
  have hc := h.contexts c
  rw [stage?_driver_self] at hc
  exact hc.machine m hm

theorem sound_post (h : Config.Tracked ⟨w, .code k :: rest⟩) (s : Signal) (deferred : Bool) :
    (post w c s deferred (.code k :: rest)).Sound := by
  have hc := h.contexts c
  refine sound_goOn ?_ (by simp)
  cases hd : (w.context c).driving with
  | true =>
    -- The driver at work takes the signal when its turn comes.
    rw [if_pos rfl]
    refine tracked_of_ne h h.layers (fun _ _ => rfl)
      (fun _ hne => context_setContext_of_ne hne _) ?_
    rw [World.context_setContext_self]
    exact hc.congr hd.symm rfl
  | false =>
    rw [if_neg Bool.false_ne_true]
    -- Posting starts a driver, and the run is where the last one left it.
    refine tracked_drive h hd not_false (fun _ hne => context_setContext_of_ne hne _) ?_
    rw [World.context_setContext_self]
    refine ⟨rfl, fun m hm => ?_⟩
    have hs : stage? c (.code k :: rest) = none := by
      rw [← Option.not_isSome_iff_eq_none, ← hc.driving, hd]
      exact Bool.false_ne_true
    rw [hs] at hc
    exact hc.machine m hm

theorem sound_launch (h : Config.Tracked ⟨w, .code k :: rest⟩) (s : Sequence κ) :
    (launch w c s (.code k :: rest)).Sound := by
  unfold launch
  simp only
  split
  next ha =>
    have hd : (w.context c).driving = false := by
      have := (Bool.and_eq_true_iff.mp ha).1
      simpa using this
    refine sound_goOn (tracked_drive h hd not_false
      (fun _ hne => context_setContext_of_ne hne _) ?_) (by simp)
    rw [World.context_setContext_self]
    exact Context.tracked_of_occurs (.start s) rfl rfl rfl
  next => exact sound_goOn h (by simp [Diagnostic.Broken])

theorem sound_return {answer : String}
    (h : Config.Tracked ⟨w, .code k :: .driver c stage :: .code k' :: rest⟩) :
    (request w (.driver c stage :: .code k' :: rest) (.done answer)).Sound := by
  have hc := h.contexts c
  rw [stage?, stage?_driver_self] at hc
  cases stage with
  | poll | moving | settle => exact absurd h.layers.1 not_false
  | calling =>
    refine sound_goOn (tracked_return h not_false (fun _ _ => rfl) ⟨hc.driving, fun m hm => ?_⟩)
      (by simp)
    obtain ⟨⟨m, ns, a⟩, hu, rfl, ⟨o, rfl⟩ | ⟨o, handler, rfl⟩⟩ := hc.machine m hm
    · exact ⟨_, hu.next .called, rfl, rfl⟩
    · exact ⟨_, hu.next .told, rfl, rfl⟩
  | choosing =>
    refine sound_goOn (tracked_return h not_false (fun _ hne => context_modify_of_ne hne _) ?_)
      (by simp)
    rw [context_modify_self]
    refine ⟨hc.driving, fun m' hm' => ?_⟩
    obtain ⟨m, hm, rfl⟩ := Option.map_eq_some_iff.mp hm'
    obtain ⟨⟨m, ns, a⟩, hu, rfl, r, ps, rfl⟩ := hc.machine m hm
    exact ⟨_, hu.next (.resolved answer), rfl, rfl⟩

theorem sound_unwind (h : Config.Tracked ⟨w, .code k :: .driver c stage :: .code k' :: rest⟩) :
    (request w (.driver c stage :: .code k' :: rest) .panic).Sound := by
  have hc := h.contexts c
  rw [stage?, stage?_driver_self] at hc
  refine sound_goOn (tracked_unwind (tracked_code h .panic)
    (fun _ hne => context_modify_of_ne hne _) ?_) (by simp)
  rw [context_modify_self]
  refine ⟨rfl, fun m hm => ?_⟩
  obtain ⟨u, hu, rfl, ha⟩ := hc.machine m hm
  refine ⟨u, hu, rfl, ?_⟩
  -- The run stays at the turn that called the code, and another signal may come next.
  exact ha.idle_of_inCall h.layers.1

theorem sound_request (h : Config.Tracked ⟨w, .code k :: rest⟩) : (request w rest k).Sound := by
  cases k with
  | done answer =>
    match rest with
    | [] => exact fun k' => tracked_code h k'
    | .code k' :: rest => exact sound_goOn (tracked_uncode h) (by simp)
    | .driver c stage :: rest =>
      -- Every driver stands on the code that set it to work.
      obtain ⟨k', rest, rfl⟩ := Suspended.exists_code h.layers
      exact sound_return h
  | panic =>
    match rest with
    | [] => exact fun k' => tracked_code h k'
    | .code k' :: rest => exact sound_goOn (tracked_code (tracked_uncode h) .panic) (by simp)
    | .driver c stage :: rest =>
      obtain ⟨k', rest, rfl⟩ := Suspended.exists_code h.layers
      exact sound_unwind h
  | post c s deferred k => exact sound_post (tracked_code h k) s deferred
  | launch c s k => exact sound_launch (tracked_code h k) s
  | create k => exact sound_goOn (tracked_of_contexts (tracked_code h _) rfl) (by simp)
  | inspect c k => exact sound_goOn (tracked_code h _) (by simp)
  | emit n k => exact sound_goOn (tracked_code h k) (by simp)
  | load k => exact sound_goOn (tracked_code h _) (by simp)
  | store s k => exact sound_goOn (tracked_of_contexts (tracked_code h k) rfl) (by simp)

theorem mem_reports {ns : List Notice} {d : Diagnostic} {e : ContextId}
    (h : .reported e d ∈ (reports c ns : List (Event κ ε))) : .report d ∈ ns := by
  induction ns with
  | nil => exact absurd h List.not_mem_nil
  | cons n ns ih =>
    cases n with
    | active a => exact List.mem_cons_of_mem _ (ih h)
    | report d' =>
      rcases List.mem_cons.mp h with he | h
      · obtain ⟨-, rfl⟩ := Event.reported.inj he
        exact List.mem_cons_self ..
      · exact List.mem_cons_of_mem _ (ih h)

theorem sound_follow (h : Config.Tracked ⟨w, .driver c stage :: .code k :: rest⟩) {u : Turn κ}
    (hu : u.Occurs) : (follow host w c u (.code k :: rest)).Sound := by
  have hdriving := driving_of_tracked h
  have hr (e : ContextId) (d : Diagnostic)
      (hd : .reported e d ∈ (reports c u.notices : List (Event κ ε))) : ¬ d.Broken :=
    hu.not_broken (mem_reports hd)
  -- Whatever becomes of its status, the context takes over the machine of the turn.
  have ht (st : Stage κ) {x : Context κ} (ha : Attends (some st) u)
      (hd : x.driving = true) (hm : x.machine = some u.machine) :
      ((w.setContext c x).context c).Tracked (some st) := by
    rw [World.context_setContext_self]
    exact Context.tracked_of_occurs hu ha hd hm
  have hne {x : Context κ} (d : ContextId) (hdc : d ≠ c) :
      (w.setContext c x).context d = w.context d := context_setContext_of_ne hdc x
  obtain ⟨m, ns, a⟩ := u
  cases a with
  | work t windingUp =>
    exact sound_goOn (tracked_restage h not_false hne (ht _ rfl hdriving rfl)) hr
  | settle => exact sound_goOn (tracked_restage h not_false hne (ht _ rfl hdriving rfl)) hr
  | call o =>
    refine sound_goOn (tracked_call h ?_ hne ?_ _) ?_
    · trivial
    · exact ht .calling (.inl ⟨o, rfl⟩) hdriving rfl
    · simpa using hr
  | resolve r ps =>
    refine sound_goOn (tracked_call h ?_ hne ?_ _) ?_
    · trivial
    · exact ht .choosing ⟨r, ps, rfl⟩ hdriving rfl
    · simpa using hr
  | finished o handler =>
    cases handler with
    | none =>
      refine sound_goOn (tracked_restage h not_false hne ?_) (by simpa using hr)
      rw [World.context_setContext_self]
      exact Context.tracked_of_occurs (hu.next .told) rfl hdriving rfl
    | some handler =>
      refine sound_goOn (tracked_call h ?_ hne ?_ _) ?_
      · trivial
      · exact ht .calling (.inr ⟨o, _, rfl⟩) hdriving rfl
      · simpa using hr

theorem sound_poll (h : Config.Tracked ⟨w, .driver c .poll :: .code k :: rest⟩) :
    (drive host w c (.code k :: rest) .poll).Sound := by
  have hne {x : Context κ} (d : ContextId) (hdc : d ≠ c) :
      (w.setContext c x).context d = w.context d := context_setContext_of_ne hdc x
  unfold drive
  simp only
  split
  next hq =>
    refine sound_goOn (tracked_leave h hne ?_) (by simp)
    rw [World.context_setContext_self]
    exact ⟨rfl, fun m hm => turn_of_tracked h hm⟩
  next s q hq =>
    split
    next m hm =>
      refine sound_goOn (tracked_restage h not_false hne ?_) (by simp)
      rw [World.context_setContext_self]
      obtain ⟨u, hu, rfl, idle⟩ := turn_of_tracked h hm
      exact Context.tracked_of_occurs (hu.receive idle s) rfl (driving_of_tracked h) hm
    next hm =>
      refine sound_goOn (tracked_restage h not_false hne ?_) (by simp [Diagnostic.Broken])
      rw [World.context_setContext_self]
      exact .of_none (driving_of_tracked h) hm

theorem sound_settle (h : Config.Tracked ⟨w, .driver c .settle :: .code k :: rest⟩) :
    (drive host w c (.code k :: rest) .settle).Sound := by
  unfold drive
  simp only
  split
  next p hp =>
    obtain ⟨m, hm, hp⟩ := Option.bind_eq_some_iff.mp hp
    obtain ⟨⟨m, ns, a⟩, hu, rfl, rfl⟩ := turn_of_tracked h hm
    refine sound_goOn (tracked_restage h not_false
      (fun _ hne => context_setContext_of_ne hne _) ?_) (by simp)
    rw [World.context_setContext_self]
    exact Context.tracked_of_occurs (hu.next (.unpark hp)) rfl (driving_of_tracked h)
      (by rw [hm]; rfl)
  next hp =>
    refine sound_goOn (tracked_restage h not_false (fun _ _ => rfl)
      ⟨driving_of_tracked h, fun m hm => ?_⟩) (by simp)
    obtain ⟨⟨m, ns, a⟩, hu, rfl, rfl⟩ := turn_of_tracked h hm
    refine ⟨_, hu, rfl, ?_⟩
    rw [hm] at hp
    exact hp

theorem sound_drive (h : Config.Tracked ⟨w, .driver c stage :: .code k :: rest⟩) :
    (drive host w c (.code k :: rest) stage).Sound := by
  cases stage with
  | poll => exact sound_poll h
  | settle => exact sound_settle h
  | calling | choosing => exact absurd trivial h.layers.1
  | moving t windingUp =>
    unfold drive
    simp only
    split
    next m hm =>
      obtain ⟨⟨m, ns, a⟩, hu, rfl, rfl⟩ := turn_of_tracked h hm
      exact sound_follow h (hu.next .work)
    next hm =>
      exact sound_goOn (tracked_restage h not_false (fun _ _ => rfl)
        (.of_none (driving_of_tracked h) hm)) (by simp)

theorem sound_step {cfg : Config κ σ ε} (h : cfg.Tracked) : (step host cfg).Sound := by
  obtain ⟨w, stack⟩ := cfg
  match stack with
  | [] => exact absurd h.layers not_false
  | .code k :: rest => exact sound_request h
  | .driver c stage :: rest =>
    obtain ⟨k, rest, rfl⟩ := Layered.exists_code h.layers
    exact sound_drive h

section
variable {cfg cfg' : Config κ σ ε} {es : List (Event κ ε)} {w : World κ σ}

theorem tracked_of_more (h : cfg.Tracked) (hs : step host cfg = .more cfg' es) : cfg'.Tracked := by
  have hsound : (step host cfg).Sound := sound_step h
  rw [hs] at hsound
  exact hsound.1

theorem tracked_of_returned {answer : String} (h : cfg.Tracked)
    (hs : step host cfg = .returned w answer) (k : Code κ σ ε) : Config.Tracked ⟨w, [.code k]⟩ := by
  have hsound : (step host cfg).Sound := sound_step h
  rw [hs] at hsound
  exact hsound k

theorem tracked_of_panicked (h : cfg.Tracked) (hs : step host cfg = .panicked w) (k : Code κ σ ε) :
    Config.Tracked ⟨w, [.code k]⟩ := by
  have hsound : (step host cfg).Sound := sound_step h
  rw [hs] at hsound
  exact hsound k

end

theorem Reachable.tracked {cfg : Config κ σ ε} {log : List (Event κ ε)}
    (h : Reachable host cfg log) : cfg.Tracked ∧ ∀ c d, .reported c d ∈ log → ¬ d.Broken := by
  induction h with
  | start s k => exact ⟨tracked_start s k, nofun⟩
  | step _ hs ih =>
    have hsound : (Engine.step host _).Sound := sound_step ih.1
    rw [hs] at hsound
    refine ⟨hsound.1, fun c d hd => ?_⟩
    rcases List.mem_append.mp hd with hd | hd
    · exact ih.2 c d hd
    · exact hsound.2 c d hd
  | returned _ hs k ih => exact ⟨tracked_of_returned ih.1 hs k, ih.2⟩
  | panicked _ hs k ih => exact ⟨tracked_of_panicked ih.1 hs k, ih.2⟩

end Engine
end Sequencer
