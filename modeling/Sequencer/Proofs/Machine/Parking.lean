import Sequencer.Proofs.Machine.Direct
import Sequencer.Proofs.Machine.Termination

/-! Parking changes nothing that can be seen. Under the same user code a machine and the direct one
both come to an end or neither does, with the same effects in the same order and in the same
state. -/

namespace Sequencer
variable {κ : Type}

namespace Direct
variable {code : UserCode κ} {past es : List (Effect κ)} {m n : Machine κ} {t : Task κ} {x : Exit}
  {windingUp : Bool} {e : Ending κ}

theorem Returns.parked (h : Returns code past m t es n x) (hp : m.parked = none) :
    n.parked = none := by
  induction h with
  | task _ _ ih | resolve _ _ _ ih => exact ih (parallel_step hp _).1
  | settle | call | resolverPanic | finished | fault => exact (parallel_step hp _).1

theorem parked_step (hp : m.parked = none) (t : Task κ) : (step m t).machine.parked = none :=
  (parallel_step hp t).1

theorem step_eq (hp : m.parked = none) {q : Sequel κ} (hq : (step m t).sequel = q)
    (hn : ∀ u, q ≠ .task u) : m.step t = step m t := by
  obtain ⟨-, heq | ⟨p, hq', -⟩⟩ := parallel_step hp t
  · exact heq
  · exact absurd (hq.symm.trans hq') (hn _)

theorem turn_of_task (hp : m.parked = none) (hw : windingUp = true → t = .finish) {u : Task κ}
    (hq : (step m t).sequel = .task u) :
    m.turn t windingUp = ⟨(step m t).machine, (step m t).notices, .work u windingUp⟩ ∨
      windingUp = false ∧ ∃ p : Parked, p.task = u ∧
        m.turn t windingUp =
          ⟨{ (step m t).machine with parked := some p }, (step m t).notices, .settle⟩ := by
  obtain ⟨-, heq | ⟨p, hq', heq⟩⟩ := parallel_step hp t
  · exact .inl (by simp only [Machine.turn, heq, hq])
  · refine .inr ⟨?_, p, Sequel.task.inj (hq'.symm.trans hq), by simp only [Machine.turn, heq]⟩
    -- Winding up a run finishes it, which parks nothing.
    cases windingUp with
    | false => rfl
    | true =>
      obtain rfl := hw rfl
      have hn := Machine.parked_finish hp
      exact absurd ((congrArg (·.machine.parked) heq).symm.trans hn) (Option.some_ne_none p)

theorem sequel_finish_ne_resolve (m : Machine κ) (r : κ) (ps : List Json) :
    m.finish.sequel ≠ .resolve r ps := by
  unfold Machine.finish
  split
  · simp [Machine.stop]
  · dsimp only
    split <;> simp [Machine.go, Move.noticing]

theorem not_windingUp_of_resolve (hw : windingUp = true → t = .finish) {r : κ} {ps : List Json}
    (hq : (step m t).sequel = .resolve r ps) : windingUp = false := by
  cases windingUp with
  | false => rfl
  | true =>
    obtain rfl := hw rfl
    exact absurd hq (sequel_finish_ne_resolve m r ps)

theorem unpark_some (hp : m.parked = none) (p : Parked) :
    Machine.unpark { m with parked := some p } = m := by
  simp only [Machine.unpark, ← hp]

/-- How the turns go on once a task has returned, given whether the run is being wound up. -/
inductive Closes (code : UserCode κ) :
    Bool → List (Effect κ) → Machine κ → Exit → Ending κ → Prop
  | plain {windingUp : Bool} {es : List (Effect κ)} {m : Machine κ} {x : Exit}
    (hx : ∀ f, x ≠ .faulted f) : Closes code windingUp es m x (x.ending es m)
  | failed {es : List (Effect κ)} {m : Machine κ} {f : Fault} :
    Closes code true es m (.faulted f) (Exit.ending es m (.faulted f))
  | aborted {es : List (Effect κ)} {m : Machine κ} {f : Fault} {e : Ending κ}
    (h : (m.abort f).Comes code (es ++ (m.abort f).shown) e) :
    Closes code false es m (.faulted f) e

theorem shown_append (past : List (Effect κ)) (mv : Move κ) (ns : List Notice) :
    past ++ mv.shown ++ ns.map .notice = past ++ (mv.notices ++ ns).map .notice := by
  simp only [Move.shown, List.map_append, List.append_assoc]

theorem shown_report (past : List (Effect κ)) (mv : Move κ) (d : Diagnostic) :
    past ++ mv.shown ++ [.notice (.report d)] =
      past ++ (mv.notices ++ [Notice.report d]).map .notice := shown_append past mv [.report d]

theorem Closes.eq_ending (h : Closes code windingUp es m x e) (hx : ∀ f, x ≠ .faulted f) :
    e = x.ending es m := by
  cases h with
  | plain => rfl
  | failed | aborted => exact absurd rfl (hx _)

theorem closes_ending (code : UserCode κ) (es : List (Effect κ)) (m : Machine κ) (x : Exit) :
    Closes code true es m x (x.ending es m) := by
  cases x with
  | faulted => exact .failed
  | returned | panicked => exact .plain (by simp)

theorem Exit.ofReply_ne_faulted (a : Option String) (f : Fault) : Exit.ofReply a ≠ .faulted f := by
  cases a <;> simp [Exit.ofReply]

end Direct

namespace Turn.Comes
variable {code : UserCode κ} {past : List (Effect κ)} {m : Machine κ} {e : Ending κ}

theorem notices {ns : List Notice} {a : Act κ} (h : Comes code past ⟨m, ns, a⟩ e)
    (ns' : List Notice) : Comes code past ⟨m, ns', a⟩ e := by
  cases h with
  | worked h => exact .worked h
  | unparked hp h => exact .unparked hp h
  | called ha h => exact .called ha h
  | resolved ha h => exact .resolved ha h
  | told ha h => exact .told ha h
  | panicked hx hr => exact .panicked hx hr
  | settled hp => exact .settled hp

theorem of_call {ns : List Notice} {c : MethodCall κ} (hp : m.parked = none) :
    Comes code past ⟨m, ns, .call c⟩
      ((Direct.Exit.ofReply (Effect.reply code past (.operation c))).ending
        (past ++ [.operation c]) m) := by
  cases ha : Effect.reply code past (.operation c) with
  | none => exact .panicked rfl ha
  | some a => exact .called ha (.settled hp)

theorem of_finished {ns : List Notice} {o : Outcome} {handler : Option κ} (hp : m.parked = none) :
    Comes code past ⟨m, ns, .finished o handler⟩
      ((Direct.Exit.ofReply (Effect.reply code past (.outcome o handler))).ending
        (past ++ [.outcome o handler]) m) := by
  cases ha : Effect.reply code past (.outcome o handler) with
  | none => exact .panicked rfl ha
  | some a => exact .told ha (.settled hp)

theorem of_answer {ns : List Notice} {r : κ} {ps : List Json} {a : String} (hp : m.parked = none)
    (ha : Effect.reply code past (.resolver r ps) = some a)
    (h : Comes code (past ++ [.resolver r ps]) ⟨m, [], .work (.goto a) false⟩ e) :
    Comes code past ⟨m, ns, .resolve r ps⟩ e := by
  refine .resolved ha (.unparked rfl ?_)
  rwa [Machine.choose, Direct.unpark_some hp]

end Turn.Comes

namespace Direct
variable {code : UserCode κ} {past es : List (Effect κ)} {m n : Machine κ} {t : Task κ} {x : Exit}
  {windingUp : Bool} {e : Ending κ}

theorem Returns.comes (h : Returns code past m t es n x) (hp : m.parked = none)
    (hw : windingUp = true → t = .finish) (hc : Closes code windingUp es n x e)
    (ns : List Notice) : Turn.Comes code past ⟨m, ns, .work t windingUp⟩ e := by
  induction h generalizing windingUp ns with
  | @task past es m n t u x hq h ih =>
    have hn := parked_step hp t
    rcases turn_of_task hp hw hq with ht | ⟨rfl, p, rfl, ht⟩
    · refine .worked ?_
      rw [ht]
      refine ih hn (fun hwt => ?_) hc _
      obtain rfl := hw hwt
      exact Machine.eq_finish_of_sequel_finish hq
    · -- What is parked is taken up at once, as nothing else is left to do.
      refine .worked ?_
      rw [ht]
      refine .unparked rfl ?_
      rw [unpark_some hn]
      exact ih hn (by simp) hc _
  | settle hq =>
    obtain rfl := hc.eq_ending (by simp)
    refine .worked ?_
    simp only [Machine.turn, step_eq hp hq (by simp), hq]
    exact .settled (parked_step hp _)
  | call hq =>
    obtain rfl := hc.eq_ending (Exit.ofReply_ne_faulted _)
    refine .worked ?_
    simp only [Machine.turn, step_eq hp hq (by simp), hq]
    exact .of_call (parked_step hp _)
  | finished hq =>
    obtain rfl := hc.eq_ending (Exit.ofReply_ne_faulted _)
    refine .worked ?_
    simp only [Machine.turn, step_eq hp hq (by simp), hq]
    exact .of_finished (parked_step hp _)
  | resolve hq ha h ih =>
    obtain rfl := not_windingUp_of_resolve hw hq
    refine .worked ?_
    simp only [Machine.turn, step_eq hp hq (by simp), hq]
    exact .of_answer (parked_step hp _) ha (ih (parked_step hp _) (by simp) hc _)
  | resolverPanic hq ha =>
    obtain rfl := hc.eq_ending (by simp)
    refine .worked ?_
    simp only [Machine.turn, step_eq hp hq (by simp), hq]
    exact .panicked rfl ha
  | @fault past m t f hq =>
    refine .worked ?_
    simp only [Machine.turn, step_eq hp hq (by simp), hq]
    cases hc with
    | plain hx => exact absurd rfl (hx f)
    | failed =>
      rw [Exit.ending, shown_report past]
      exact .settled (parked_step hp _)
    | aborted h =>
      have h := h.notices ((step m t).notices ++ ((step m t).machine.abort f).notices)
      rwa [Turn.shown, shown_append] at h

/-- The direct machine carries out the task, and with what it returns the turns end so. -/
def Works (code : UserCode κ) (windingUp : Bool) (past : List (Effect κ)) (m : Machine κ)
    (t : Task κ) (e : Ending κ) : Prop :=
  ∃ es n x, Returns code past m t es n x ∧ Closes code windingUp es n x e

/-- What the direct machine makes of a turn. -/
def Means (code : UserCode κ) (past : List (Effect κ)) (u : Turn κ) (e : Ending κ) : Prop :=
  match u.act with
  | .work t windingUp =>
    u.machine.parked = none → (windingUp = true → t = .finish) →
      Works code windingUp past u.machine t e
  | .settle =>
    match u.machine.parked with
    | none => e = ⟨past, u.machine, false⟩
    | some p => Works code false past u.machine.unpark p.task e
  | .call c =>
    u.machine.parked = none →
      e = (Exit.ofReply (Effect.reply code past (.operation c))).ending
        (past ++ [.operation c]) u.machine
  | .resolve r ps =>
    u.machine.parked = none →
      Effect.reply code past (.resolver r ps) = none ∧
        e = ⟨past ++ [.resolver r ps], u.machine, true⟩ ∨
      ∃ a, Effect.reply code past (.resolver r ps) = some a ∧
        Works code false (past ++ [.resolver r ps]) u.machine (.goto a) e
  | .finished o handler =>
    u.machine.parked = none →
      e = (Exit.ofReply (Effect.reply code past (.outcome o handler))).ending
        (past ++ [.outcome o handler]) u.machine

theorem Works.task {u : Task κ} (hq : (step m t).sequel = .task u)
    (h : Works code windingUp (past ++ (step m t).shown) (step m t).machine u e) :
    Works code windingUp past m t e := by
  obtain ⟨es, n, x, hr, hc⟩ := h
  exact ⟨es, n, x, .task hq hr, hc⟩

theorem works_of_turn (hp : m.parked = none) (hw : windingUp = true → t = .finish)
    (h : Turn.Comes code (past ++ (m.turn t windingUp).shown) (m.turn t windingUp) e)
    (hm : Means code (past ++ (m.turn t windingUp).shown) (m.turn t windingUp) e) :
    Works code windingUp past m t e := by
  have hn := parked_step hp t
  cases hq : (step m t).sequel with
  | task u =>
    rcases turn_of_task hp hw hq with ht | ⟨rfl, p, rfl, ht⟩
    · rw [ht] at hm
      refine .task hq (hm hn fun hwt => ?_)
      obtain rfl := hw hwt
      exact Machine.eq_finish_of_sequel_finish hq
    · rw [ht] at hm
      have hm : Works code false _ (Machine.unpark _) p.task e := hm
      rw [unpark_some hn] at hm
      exact .task hq hm
  | settle =>
    simp only [Machine.turn, step_eq hp hq (by simp), hq, Means, hn] at hm
    subst hm
    exact ⟨_, _, _, .settle hq, .plain (by simp)⟩
  | call c =>
    simp only [Machine.turn, step_eq hp hq (by simp), hq] at hm
    obtain rfl := hm hn
    exact ⟨_, _, _, .call hq, .plain (Exit.ofReply_ne_faulted _)⟩
  | finished o handler =>
    simp only [Machine.turn, step_eq hp hq (by simp), hq] at hm
    obtain rfl := hm hn
    exact ⟨_, _, _, .finished hq, .plain (Exit.ofReply_ne_faulted _)⟩
  | resolve r ps =>
    obtain rfl := not_windingUp_of_resolve hw hq
    simp only [Machine.turn, step_eq hp hq (by simp), hq] at hm
    rcases hm hn with ⟨ha, rfl⟩ | ⟨a, ha, es, n, x, hr, hc⟩
    · exact ⟨_, _, _, .resolverPanic hq ha, .plain (by simp)⟩
    · exact ⟨es, n, x, .resolve hq ha hr, hc⟩
  | fault f =>
    refine ⟨_, _, _, .fault hq, ?_⟩
    cases windingUp with
    | true =>
      simp only [Machine.turn, step_eq hp hq (by simp), hq, if_true, Means, hn] at hm
      rw [hm, Turn.shown, ← shown_report]
      exact .failed
    | false =>
      simp only [Machine.turn, step_eq hp hq (by simp), hq, Bool.false_eq_true, if_false,
        Turn.shown, ← shown_append] at h
      exact .aborted (h.notices _)

theorem means_of_comes {u : Turn κ} (h : u.Comes code past e) : Means code past u e := by
  induction h with
  | worked h ih => exact fun hp hw => works_of_turn hp hw h ih
  | unparked hp h ih =>
    simp only [Means, hp]
    exact ih rfl (by simp)
  | @called past m ns c a e ha h ih =>
    intro (hp : m.parked = none)
    rw [ha]
    simpa only [Means, hp, Exit.ofReply, Exit.ending] using ih
  | @told past m ns o handler a e ha h ih =>
    intro (hp : m.parked = none)
    rw [ha]
    simpa only [Means, hp, Exit.ofReply, Exit.ending] using ih
  | @resolved past m ns r ps a e ha h ih =>
    intro hp
    have ih : Works code false _ (Machine.unpark _) (.goto a) e := ih
    rw [Machine.choose, unpark_some hp] at ih
    exact .inr ⟨a, ha, ih⟩
  | @panicked past m ns act x hx hr =>
    cases act with
    | work | settle => exact absurd hx (Option.some_ne_none _).symm
    | call c =>
      obtain rfl := Option.some.inj hx
      intro _
      rw [hr]
      rfl
    | finished o handler =>
      obtain rfl := Option.some.inj hx
      intro _
      rw [hr]
      rfl
    | resolve r ps =>
      obtain rfl := Option.some.inj hx
      exact fun _ => .inl ⟨hr, rfl⟩
  | settled hp => simp only [Means, hp]

/-- The turns of a task come to the same as what the direct machine makes of it. -/
theorem comes_iff_works (hp : m.parked = none) (hw : windingUp = true → t = .finish)
    (ns : List Notice) :
    Turn.Comes code past ⟨m, ns, .work t windingUp⟩ e ↔ Works code windingUp past m t e := by
  refine ⟨fun h => means_of_comes h hp hw, ?_⟩
  rintro ⟨es, n, x, hr, hc⟩
  exact hr.comes hp hw hc ns

theorem abort_of_finished {f : Fault} (hp : m.parked = none) (hf : m.root.finished = true) :
    m.abort f = ⟨m, [.report (.faultAfterCompletion f)], .settle⟩ := by
  simp only [Machine.abort, hf, if_true, ← hp]

theorem abort_of_unfinished {f : Fault} (hp : m.parked = none) (hf : m.root.finished = false) :
    m.abort f = ⟨m.foldFault f, .report (.runFaulted f) ::
      Machine.leavingNotices m.root m.children, .work .finish true⟩ := by
  simp only [Machine.abort_live hf, ← hp]

theorem parked_foldFault (hp : m.parked = none) (f : Fault) : (m.foldFault f).parked = none := hp

theorem Closes.concludes (h : Closes code false es m x e) (hp : m.parked = none) :
    Concludes code es m x e := by
  cases h with
  | plain hx => exact .plain hx
  | @aborted _ _ f _ h =>
    cases hf : m.root.finished with
    | true =>
      rw [abort_of_finished hp hf] at h
      have hm := means_of_comes h
      simp only [Means, hp] at hm
      rw [hm]
      exact .late hf
    | false =>
      rw [abort_of_unfinished hp hf] at h
      obtain ⟨es', n, x, hr, hc⟩ := (comes_iff_works (parked_foldFault hp f) (fun _ => rfl) _).mp h
      cases hc with
      | plain | failed => exact .woundUp hf hr

theorem Concludes.closes (h : Concludes code es m x e) (hp : m.parked = none) :
    Closes code false es m x e := by
  cases h with
  | plain hx => exact .plain hx
  | late hf =>
    refine .aborted ?_
    rw [abort_of_finished hp hf]
    exact .settled hp
  | woundUp hf hr =>
    refine .aborted ?_
    rw [abort_of_unfinished hp hf]
    exact (comes_iff_works (parked_foldFault hp _) (fun _ => rfl) _).mpr
      ⟨_, _, _, hr, closes_ending ..⟩

theorem works_iff_applies (hp : m.parked = none) (s : Signal) :
    Works code false [] m s.task e ↔ Applies m code s e := by
  refine exists_congr fun es => exists_congr fun n => exists_congr fun x =>
    and_congr_right fun h => ?_
  exact ⟨fun hc => hc.concludes (h.parked hp), fun hc => hc.closes (h.parked hp)⟩

end Direct

namespace Turn

theorem Comes.unique {code : UserCode κ} {past : List (Effect κ)} {u : Turn κ} {e e' : Ending κ}
    (h : Comes code past u e) (h' : Comes code past u e') : e' = e := by
  induction h with
  | worked h ih =>
    cases h' with
    | worked h' => exact ih h'
    | panicked hx => exact absurd hx (Option.some_ne_none _).symm
  | unparked hp h ih =>
    cases h' with
    | unparked hp' h' =>
      obtain rfl := Option.some.inj (hp.symm.trans hp')
      exact ih h'
    | panicked hx => exact absurd hx (Option.some_ne_none _).symm
    | settled hp' => exact absurd (hp.symm.trans hp') (by simp)
  | called ha h ih =>
    cases h' with
    | called ha' h' => exact ih h'
    | panicked hx hr =>
      obtain rfl := Option.some.inj hx
      exact absurd (ha.symm.trans hr) (Option.some_ne_none _)
  | resolved ha h ih =>
    cases h' with
    | resolved ha' h' =>
      obtain rfl := Option.some.inj (ha.symm.trans ha')
      exact ih h'
    | panicked hx hr =>
      obtain rfl := Option.some.inj hx
      exact absurd (ha.symm.trans hr) (Option.some_ne_none _)
  | told ha h ih =>
    cases h' with
    | told ha' h' => exact ih h'
    | panicked hx hr =>
      obtain rfl := Option.some.inj hx
      exact absurd (ha.symm.trans hr) (Option.some_ne_none _)
  | panicked hx hr =>
    cases h' with
    | worked | unparked | settled => exact absurd hx (Option.some_ne_none _).symm
    | called ha | resolved ha | told ha =>
      obtain rfl := Option.some.inj hx
      exact absurd (ha.symm.trans hr) (Option.some_ne_none _)
    | panicked hx' =>
      obtain rfl := Option.some.inj (hx.symm.trans hx')
      rfl
  | settled hp =>
    cases h' with
    | unparked hp' => exact absurd (hp.symm.trans hp') (by simp)
    | panicked hx => exact absurd hx (Option.some_ne_none _).symm
    | settled => rfl

end Turn

namespace Machine

theorem applies_iff_direct {m : Machine κ} (h : m.Reachable) (code : UserCode κ) (s : Signal)
    (e : Ending κ) : m.Applies code s e ↔ Direct.Applies m code s e :=
  (Direct.comes_iff_works h.wellFormed.parked (by simp) []).trans
    (Direct.works_iff_applies h.wellFormed.parked s)

/-- If a signal comes to an end on the machine or on the direct one, it does so on both, in one way
only. -/
theorem parking_transparent {m : Machine κ} (h : m.Reachable) (code : UserCode κ) (s : Signal)
    (ends : (∃ e, m.Applies code s e) ∨ ∃ e, Direct.Applies m code s e) :
    ∃ e, ∀ e', (m.Applies code s e' ↔ e' = e) ∧ (Direct.Applies m code s e' ↔ e' = e) := by
  simp only [← applies_iff_direct h, or_self] at ends ⊢
  obtain ⟨e, he⟩ := ends
  have hu : ∀ e', m.Applies code s e' ↔ e' = e := fun e' =>
    ⟨fun he' => Turn.Comes.unique he he', fun hee => hee ▸ he⟩
  exact ⟨e, fun e' => ⟨hu e', hu e'⟩⟩

end Machine

/-- The loop goes round again: its check is parked, and the direct machine makes it at once. -/
theorem humming_proceeds_directly : ∃ e : Ending Unit,
    e.effects = [.notice (.active ⟨none, 0⟩), .notice (.active ⟨none, 1⟩),
      .operation { operation := () }] ∧ e.machine = hummingAtWork ∧ e.panicked = false ∧
    ∀ e', (hummingAtWork.Applies (fun _ => some "") .proceed e' ↔ e' = e) ∧
      (Direct.Applies hummingAtWork (fun _ => some "") .proceed e' ↔ e' = e) := by
  have he : hummingAtWork.Applies (fun _ => some "") .proceed
      ⟨[.notice (.active ⟨none, 0⟩), .notice (.active ⟨none, 1⟩), .operation { operation := () }],
        hummingAtWork, false⟩ :=
    .worked <| .unparked rfl <| .worked <| .worked <| .worked <| .called rfl <| .settled rfl
  obtain ⟨e, hu⟩ := Machine.parking_transparent reachable_hummingAtWork _ _ (.inl ⟨_, he⟩)
  obtain rfl := (hu _).1.mp he
  exact ⟨_, rfl, rfl, rfl, hu⟩

end Sequencer
