import Sequencer.Proofs.Machine.Moves
import Sequencer.Proofs.Machine.Notices

/-! Progress. From the moment a signal is taken for a live run until nothing is left to do, the
machine is under way; it comes to rest only after one operation has been called or after the run
is over. -/

namespace Sequencer
variable {κ : Type}

/-- A loop was looked for where none is, or a run could not be wound up. -/
def Diagnostic.Broken (d : Diagnostic) : Prop :=
  (∃ f, d = .endingFailed f) ∨ d = .runFaulted .noLoop ∨ d = .faultAfterCompletion .noLoop

def Sequel.act? (windingUp : Bool) : Sequel κ → Option (Act κ)
  | .task t => some (.work t windingUp)
  | .settle => some .settle
  | .call c => some (.call c)
  | .resolve r ps => some (.resolve r ps)
  | .finished o handler => some (.finished o handler)
  | .fault _ => none

theorem Sequel.eq_task_of_act? {q : Sequel κ} {windingUp w : Bool} {t : Task κ}
    (h : q.act? windingUp = some (.work t w)) : q = .task t := by
  cases q with
  | task t' =>
    obtain ⟨rfl, -⟩ := Act.work.inj (Option.some.inj h)
    rfl
  | _ => exact absurd h nofun

/-- The application of a signal to a live run has not come to rest. -/
def Turn.Underway (u : Turn κ) : Prop :=
  match u.act with
  | .work t windingUp => u.machine.Live ∧ u.machine.parked = none ∧ t.Fits u.machine ∧
      (windingUp = true → t = .finish)
  | .settle => u.machine.Live ∧ ∃ p, u.machine.parked = some p ∧ p.task.Fits u.machine
  | .call _ | .resolve _ _ => u.machine.Live ∧ u.machine.parked = none
  | .finished o _ => u.machine.Over ∧ o = .ofErrors u.machine.root.errors

namespace Machine
variable {m : Machine κ}

theorem sequel_finish_ne_fault (m : Machine κ) (f : Fault) : m.finish.sequel ≠ .fault f := by
  unfold finish
  split
  · exact nofun
  · dsimp only
    split <;> exact nofun

theorem eq_finish_of_sequel_finish {t : Task κ} (h : m.finish.sequel = .task t) : t = .finish := by
  unfold finish at h
  split at h
  · exact absurd h nofun
  · dsimp only at h
    split at h
    · exact absurd h nofun
    · exact (Sequel.task.inj h).symm

theorem report_not_mem_leavingNotices (root : Frame κ) (cs : List (Child κ)) (d : Diagnostic) :
    .report d ∉ leavingNotices root cs := by
  induction cs with
  | nil => exact List.not_mem_nil
  | cons c cs ih => simpa [leavingNotices] using ih

theorem report_not_mem_step (h : m.active.finished = false) (t : Task κ) (d : Diagnostic) :
    .report d ∉ (m.step t).notices := by
  rcases announces_step h t with ⟨hn, -⟩ | hn <;> simp [hn]

theorem abort_live (h : m.root.finished = false) (f : Fault) :
    m.abort f = ⟨foldFault { m with parked := none } f,
      .report (.runFaulted f) :: leavingNotices m.root m.children, .work .finish true⟩ := by
  simp [abort, h]

theorem turn_cases (m : Machine κ) (t : Task κ) (windingUp : Bool) :
    (∃ a, (m.step t).sequel.act? windingUp = some a ∧
      m.turn t windingUp = ⟨(m.step t).machine, (m.step t).notices, a⟩) ∨
    ∃ f, (m.step t).sequel = .fault f ∧
      ((∃ p ns, (p = none ∨ p = (m.step t).machine.parked) ∧
        m.turn t windingUp = ⟨{ (m.step t).machine with parked := p }, ns, .settle⟩) ∨
      ∃ ns, m.turn t windingUp =
        ⟨foldFault { (m.step t).machine with parked := none } f, ns, .work .finish true⟩) := by
  unfold Machine.turn
  cases hq : (m.step t).sequel <;> simp only [hq]
  case fault f =>
    refine .inr ⟨f, rfl, ?_⟩
    cases windingUp with
    | true => exact .inl ⟨_, _, .inr rfl, rfl⟩
    | false =>
      simp only [Bool.false_eq_true, if_false, abort]
      by_cases hf : (m.step t).machine.root.finished = true
      · rw [if_pos hf]
        exact .inl ⟨none, _, .inl rfl, rfl⟩
      · rw [if_neg hf]
        exact .inr ⟨_, rfl⟩
  all_goals exact .inl ⟨_, rfl, rfl⟩

theorem Live.turn_cases (h : m.Live) (hp : m.parked = none) {t : Task κ} (ht : t.Fits m)
    {windingUp : Bool} (hw : windingUp = true → t = .finish) :
    (∃ a, (m.step t).sequel.act? windingUp = some a ∧
      m.turn t windingUp = ⟨(m.step t).machine, (m.step t).notices, a⟩) ∨
    ∃ f, (m.step t).sequel = .fault f ∧ m.turn t windingUp =
      ⟨foldFault { (m.step t).machine with parked := none } f,
        (m.step t).notices ++ .report (.runFaulted f) ::
          leavingNotices (m.step t).machine.root (m.step t).machine.children,
        .work .finish true⟩ := by
  have hs := h.step hp ht
  unfold Machine.turn
  unfold Move.Underway at hs
  cases hq : (m.step t).sequel <;> simp only [hq] at hs ⊢
  case fault f =>
    -- While a run is wound up its only task is to finish, which raises nothing.
    have hw' : windingUp ≠ true := by
      rintro hwt
      obtain rfl := hw hwt
      exact sequel_finish_ne_fault m f hq
    rw [if_neg hw', abort_live hs.1.unfinished]
    exact .inr ⟨f, rfl, rfl⟩
  all_goals exact .inl ⟨_, rfl, rfl⟩

theorem Live.turn (h : m.Live) (hp : m.parked = none) {t : Task κ} (ht : t.Fits m)
    {windingUp : Bool} (hw : windingUp = true → t = .finish) : (m.turn t windingUp).Underway := by
  have hs := h.step hp ht
  unfold Move.Underway at hs
  rcases h.turn_cases hp ht hw with ⟨a, ha, he⟩ | ⟨f, hf, he⟩
  · rw [he]
    cases hq : (m.step t).sequel <;> simp only [hq] at hs ha
    case task t' =>
      obtain rfl := Option.some.inj ha
      refine ⟨hs.1, hs.2.1, hs.2.2, fun hwt => ?_⟩
      obtain rfl := hw hwt
      exact eq_finish_of_sequel_finish hq
    case fault => exact absurd ha nofun
    all_goals
      obtain rfl := Option.some.inj ha
      exact hs
  · rw [he]
    rw [hf] at hs
    exact ⟨live_foldFault (m := { (m.step t).machine with parked := none }) hs.1.unfinished f,
      rfl, trivial, fun _ => rfl⟩

theorem Live.not_broken (h : m.Live) (hp : m.parked = none) {t : Task κ} (ht : t.Fits m)
    {windingUp : Bool} (hw : windingUp = true → t = .finish) {d : Diagnostic}
    (hd : .report d ∈ (m.turn t windingUp).notices) : ¬ d.Broken := by
  have hs := h.step hp ht
  have hn := report_not_mem_step h.active_finished t d
  unfold Move.Underway at hs
  rcases h.turn_cases hp ht hw with ⟨a, -, he⟩ | ⟨f, hf, he⟩
  · rw [he] at hd
    exact absurd hd hn
  · rw [he] at hd
    rw [hf] at hs
    have hl := report_not_mem_leavingNotices (m.step t).machine.root (m.step t).machine.children d
    obtain rfl : d = .runFaulted f := by simpa [hn, hl] using hd
    simpa [Diagnostic.Broken] using hs.2.2

theorem Over.turn (h : m.Over) (s : Signal) :
    ∃ ns, m.turn s.task false = ⟨m, ns, .settle⟩ ∧ ∀ d, .report d ∈ ns → ¬ d.Broken := by
  have hm : ({ m with parked := none } : Machine κ) = m := by rw [← h.parked]
  -- Errors are reported and dropped; any other signal is a fault, which is reported too.
  have hf : (m.step s.task).machine = m ∧ ((m.step s.task).sequel = .settle ∧
      (∀ d, .report d ∈ (m.step s.task).notices → d = .errorsAfterCompletion) ∨
      (m.step s.task).notices = [] ∧ ∃ p, (m.step s.task).sequel = .fault (.finished p)) := by
    cases s <;> simp [Signal.task, step, next, proceed, leave, goto, emit, finish, raise, stop,
      h.active_finished]
  obtain ⟨hm', ⟨hq, hn⟩ | ⟨hn, p, hq⟩⟩ := hf
  · refine ⟨(m.step s.task).notices, by simp only [Machine.turn, hq, hm'], fun d hd => ?_⟩
    rw [hn d hd]
    simp [Diagnostic.Broken]
  · refine ⟨[.report (.faultAfterCompletion (.finished p))], ?_, fun d hd => ?_⟩
    · simp [Machine.turn, hq, hm', hn, abort, hm, h.finished]
    · simp only [List.mem_singleton, Notice.report.injEq] at hd
      simp [Diagnostic.Broken, hd]

end Machine

namespace Turn
variable {u v : Turn κ} {us : List (Turn κ)}

theorem Underway.not_settled (h : u.Underway) : ¬ u.Settled := by
  obtain ⟨m, ns, a⟩ := u
  rintro ⟨rfl, hp⟩
  obtain ⟨-, p, hp', -⟩ := h
  exact absurd (hp.symm.trans hp') nofun

theorem Underway.wellFormed (h : u.Underway) (idle : u.Idle) : u.machine.WellFormed := by
  obtain ⟨m, ns, a⟩ := u
  cases a with
  | work t windingUp => exact absurd idle not_false
  | settle => exact absurd ⟨rfl, idle⟩ h.not_settled
  | call c => exact h.1.wellFormed h.2
  | resolve r ps => exact h.1.wellFormed h.2
  | finished o handler => exact h.1.wellFormed

/-- What follows a turn under way is under way too, unless an operation or a handler has just
returned: then nothing is left to do. -/
theorem Next.underway (hn : Next u v) (h : u.Underway) :
    v.Underway ∨ u.Idle ∧ v.Settled ∧ v.machine = u.machine := by
  cases hn with
  | work =>
    obtain ⟨hl, hp, ht, hw⟩ := h
    exact .inl (hl.turn hp ht hw)
  | unpark hp =>
    obtain ⟨hl, p, hp', ht⟩ := h
    obtain rfl := Option.some.inj (hp.symm.trans hp')
    exact .inl ⟨hl.withParked none, rfl, Task.fits_withParked.mpr ht, nofun⟩
  | called => exact .inr ⟨trivial, ⟨rfl, h.2⟩, rfl⟩
  | resolved answer => exact .inl ⟨h.1.withParked _, .goto answer, rfl, trivial⟩
  | told => exact .inr ⟨trivial, ⟨rfl, h.1.parked⟩, rfl⟩

theorem underway_receive {m : Machine κ} (h : m.WellFormed) (hu : m.isFinished = false)
    (s : Signal) : (m.receive s).Underway :=
  ⟨h.live hu, h.parked, s.task_fits m, nofun⟩

theorem Occurs.cases (h : u.Occurs) :
    u.Underway ∨ u.Settled ∧ u.machine.WellFormed ∨
      u.machine.Over ∧ ∃ s : Signal, u.act = .work s.task false := by
  induction h with
  | start s => exact .inr (.inl ⟨⟨rfl, rfl⟩, (Machine.live_start s).wellFormed rfl⟩)
  | @receive u _ idle s ih =>
    -- Signals are taken at rest only, never in the middle of a move.
    have hw : u.machine.WellFormed := by
      rcases ih with ih | ⟨-, ih⟩ | ⟨-, s', hs'⟩
      · exact ih.wellFormed idle
      · exact ih
      · exact absurd idle (by simp [Idle, hs'])
    cases hf : u.machine.isFinished with
    | false => exact .inl (underway_receive hw hf s)
    | true => exact .inr (.inr ⟨⟨hf, (hw.ended hf).1, (hw.ended hf).2, hw.parked⟩, s, rfl⟩)
  | @next u v _ hn ih =>
    rcases ih with ih | ⟨ih, -⟩ | ⟨ho, s, hs⟩
    · rcases hn.underway ih with hv | ⟨idle, hv, hm⟩
      · exact .inl hv
      · exact .inr (.inl ⟨hv, hm ▸ ih.wellFormed idle⟩)
    · exact absurd hn ih.not_next
    · obtain ⟨m, ns, a⟩ := u
      obtain rfl : a = .work s.task false := hs
      cases hn with
      | work =>
        obtain ⟨ns', ht, -⟩ := Machine.Over.turn ho s
        rw [ht]
        exact .inr (.inl ⟨⟨rfl, ho.parked⟩, ho.wellFormed⟩)

theorem Occurs.not_broken (h : u.Occurs) {d : Diagnostic} (hd : .report d ∈ u.notices) :
    ¬ d.Broken := by
  cases h with
  | start | receive => exact absurd hd List.not_mem_nil
  | next h hn =>
    cases hn with
    | unpark | called | resolved | told => exact absurd hd List.not_mem_nil
    | work =>
      rcases h.cases with ⟨hl, hp, ht, hw⟩ | ⟨⟨hs, -⟩, -⟩ | ⟨ho, s, hs⟩
      · exact hl.not_broken hp ht hw hd
      · exact absurd hs nofun
      · obtain ⟨rfl, rfl⟩ := Act.work.inj hs
        obtain ⟨ns, ht, hns⟩ := Machine.Over.turn ho s
        rw [ht] at hd
        exact hns d hd

end Turn

theorem Machine.Reachable.wellFormed {m : Machine κ} (h : m.Reachable) : m.WellFormed := by
  obtain ⟨u, hu, idle, rfl⟩ := h
  rcases hu.cases with hu | ⟨-, hu⟩ | ⟨-, s, hs⟩
  · exact hu.wellFormed idle
  · exact hu
  · exact absurd idle (by simp [Turn.Idle, hs])

namespace Act

def isOperation : Act κ → Bool
  | .call _ => true
  | _ => false

def isResolver : Act κ → Bool
  | .resolve _ _ => true
  | _ => false

def isCallback : Act κ → Bool
  | .call _ | .resolve _ _ | .finished _ (some _) => true
  | .finished _ none | .work _ _ | .settle => false

end Act

namespace Turn
variable {u v : Turn κ} {us : List (Turn κ)}

/-- Of all user code one operation was called, after resolvers only, and the run waits in the state
in which it was called. -/
def Waits (us : List (Turn κ)) (v : Turn κ) : Prop :=
  ∃ before u, us.filter (·.act.isCallback) = before ++ [u] ∧
    (∀ b ∈ before, b.act.isResolver = true) ∧ u.act.isOperation = true ∧
    v.machine = u.machine ∧ v.machine.isFinished = false

/-- No operation was called, and the outcome of the run was recorded. -/
def Ends (us : List (Turn κ)) (v : Turn κ) : Prop :=
  (∀ b ∈ us, b.act.isOperation = false) ∧ v.machine.isFinished = true ∧
    ∃ b ∈ us, ∃ handler, b.act = .finished (.ofErrors v.machine.root.errors) handler

theorem Waits.cons {b : Turn κ} (hb : b.act.isCallback = false) (h : Waits us v) :
    Waits (b :: us) v := by
  simpa [Waits, hb] using h

theorem Waits.cons_resolve {b : Turn κ} (hb : b.act.isResolver = true) (h : Waits us v) :
    Waits (b :: us) v := by
  obtain ⟨before, u, hf, hr, hu⟩ := h
  have hc : b.act.isCallback = true := by
    revert hb
    cases b.act <;> simp [Act.isResolver, Act.isCallback]
  refine ⟨b :: before, u, by simp [hc, hf], fun x hx => ?_, hu⟩
  rcases List.mem_cons.mp hx with rfl | hx
  · exact hb
  · exact hr x hx

theorem Ends.cons {b : Turn κ} (hb : b.act.isOperation = false) (h : Ends us v) :
    Ends (b :: us) v := by
  obtain ⟨ho, hf, x, hx, hd⟩ := h
  refine ⟨fun y hy => ?_, hf, x, List.mem_cons_of_mem _ hx, hd⟩
  rcases List.mem_cons.mp hy with rfl | hy
  · exact hb
  · exact ho y hy

theorem Path.waits_or_ends (path : Path u us v) (h : u.Underway) (hv : v.Settled) :
    Waits us v ∨ Ends us v := by
  induction path with
  | refl => exact absurd hv h.not_settled
  | @cons u x v us hn path ih =>
    have hx := hn.underway h
    cases hn with
    | work =>
      have hx := hx.resolve_right fun hr => hr.1
      exact (ih hx hv).imp (Waits.cons rfl) (Ends.cons rfl)
    | unpark hp =>
      have hx := hx.resolve_right fun hr => absurd (hp.symm.trans hr.1) nofun
      exact (ih hx hv).imp (Waits.cons rfl) (Ends.cons rfl)
    | resolved answer =>
      have hx := hx.resolve_right fun hr => absurd hr.2.1.2 nofun
      exact (ih hx hv).imp (Waits.cons_resolve rfl) (Ends.cons rfl)
    | @called m =>
      -- Once the operation returns nothing is left to do, so the path ends here.
      have hs : Settled (⟨m, [], .settle⟩ : Turn κ) := ⟨rfl, h.2⟩
      obtain ⟨rfl, rfl⟩ := hs.path path
      exact .inl ⟨[], _, rfl, nofun, rfl, rfl, h.1.isFinished⟩
    | @told m ns o handler =>
      have hs : Settled (⟨m, [], .settle⟩ : Turn κ) := ⟨rfl, h.1.parked⟩
      obtain ⟨rfl, rfl⟩ := hs.path path
      refine .inr ⟨fun b hb => ?_, h.1.finished, _, List.mem_singleton_self _, handler, ?_⟩
      · rw [List.mem_singleton.mp hb]
        rfl
      · rw [h.2]

end Turn

/-- Exactly one of two things comes of a signal to a run that is not over. -/
theorem Machine.Reachable.one_operation_or_end {m : Machine κ} (h : m.Reachable)
    (hu : m.isFinished = false) (s : Signal) {us : List (Turn κ)} {v : Turn κ}
    (path : Turn.Path (m.receive s) us v) (hv : v.Settled) :
    Turn.Waits us v ∧ ¬ Turn.Ends us v ∨ Turn.Ends us v ∧ ¬ Turn.Waits us v := by
  have hne : ¬ (Turn.Waits us v ∧ Turn.Ends us v) := by
    rintro ⟨⟨_, _, _, _, _, _, hf⟩, -, he, -⟩
    exact absurd (hf.symm.trans he) nofun
  rcases path.waits_or_ends (Turn.underway_receive h.wellFormed hu s) hv with hw | he
  · exact .inl ⟨hw, fun he => hne ⟨hw, he⟩⟩
  · exact .inr ⟨he, fun hw => hne ⟨hw, he⟩⟩

/-- An error that does not break, then a loop without end around one operation. -/
def humming : Sequence Unit :=
  { entries := [.error ⟨none, .message "late", none, false⟩,
      .loop ⟨none, .always, { entries := [.method { operation := () }] }, none, none, none⟩] }

theorem one_operation_of_next_humming :
    (Machine.start humming).isFinished = false ∧
      ∃ us v, Turn.Path ((Machine.start humming).receive .next) us v ∧ v.Settled ∧
        Turn.Waits us v ∧ ¬ Turn.Ends us v := by
  have path : Turn.Path ((Machine.start humming).receive .next) _ _ :=
    .cons .work <| .cons .work <| .cons .work <| .cons .work <| .cons .work <| .cons .work <|
      .cons .work <| .cons .called <| .refl _
  rcases (Machine.reachable_start humming).one_operation_or_end rfl .next path ⟨rfl, rfl⟩ with
    hwaits | ⟨⟨-, hf, -⟩, -⟩
  · exact ⟨rfl, _, _, path, ⟨rfl, rfl⟩, hwaits⟩
  · -- The loop goes on, so the run has not ended.
    exact absurd hf nofun

end Sequencer
