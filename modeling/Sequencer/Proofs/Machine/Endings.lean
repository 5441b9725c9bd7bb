import Sequencer.Proofs.Machine.Progress

/-! Whose run it is. Whatever is entered and left in between, the root sequence stays the one that
was launched; only its handlers are told how the run ended, and nothing comes of a signal after
that. -/

namespace Sequencer
variable {κ : Type}

def Sequence.handler (s : Sequence κ) : Outcome → Option κ
  | .success => s.onSuccess
  | .failure _ => s.onError

/-- The run stays that of the sequence, which is told if the move ends it. -/
def Move.Of (mv : Move κ) (s : Sequence κ) : Prop :=
  mv.machine.root.sequence = s ∧
    ∀ o handler, mv.sequel = .finished o handler → handler = s.handler o

theorem Move.Of.noticing {mv : Move κ} {s : Sequence κ} (h : mv.Of s) (a : ActiveSequence) :
    (mv.noticing a).Of s := h

theorem Sequel.eq_finished_of_act? {q : Sequel κ} {windingUp : Bool} {o : Outcome}
    {handler : Option κ} (h : q.act? windingUp = some (.finished o handler)) :
    q = .finished o handler := by
  cases q with
  | finished o' handler' =>
    obtain ⟨rfl, rfl⟩ := Act.finished.inj (Option.some.inj h)
    rfl
  | _ => exact absurd h nofun

namespace Machine
variable {m : Machine κ}

theorem root_sequence_modifyActive (m : Machine κ) {f : Frame κ → Frame κ}
    (hf : ∀ x, (f x).sequence = x.sequence) :
    (m.modifyActive f).root.sequence = m.root.sequence := by
  obtain ⟨r, cs, p⟩ := m
  cases cs with
  | nil => exact hf r
  | cons => rfl

@[simp] theorem root_sequence_setStack (m : Machine κ) (r : List (Construct κ)) :
    (m.setStack r).root.sequence = m.root.sequence := root_sequence_modifyActive _ fun _ => rfl

@[simp] theorem root_sequence_pushConstruct (m : Machine κ) (c : Construct κ) :
    (m.pushConstruct c).root.sequence = m.root.sequence :=
  root_sequence_modifyActive _ fun _ => rfl

@[simp] theorem root_sequence_setJump (m : Machine κ) (j : Option String) :
    (m.setJump j).root.sequence = m.root.sequence := root_sequence_modifyActive _ fun _ => rfl

@[simp] theorem root_sequence_recordErrors (m : Machine κ) (es : List Json) :
    (m.recordErrors es).root.sequence = m.root.sequence := root_sequence_modifyActive _ fun _ => rfl

section
variable {s : Sequence κ} (h : m.root.sequence = s)
include h

theorem of_go (t : Task κ) : (m.go t).Of s := ⟨h, nofun⟩

theorem of_stop : m.stop.Of s := ⟨h, nofun⟩

theorem of_raise (f : Fault) : (m.raise f).Of s := ⟨h, nofun⟩

theorem of_invoke (c : MethodCall κ) : (m.invoke c).Of s := ⟨h, nofun⟩

theorem of_park (p : Parked) : (m.park p).Of s := ⟨h, nofun⟩

theorem of_advance : m.advance.Of s := by
  unfold advance
  split
  · exact of_go ((root_sequence_modifyActive _ fun _ => by rfl).trans h) _
  · exact of_go h _

theorem of_descend (role : Role) (t : Sequence κ) : (m.descend role t).Of s := ⟨h, nofun⟩

theorem of_runBlock : m.runBlock.Of s := by
  unfold runBlock
  split
  · exact of_descend ((root_sequence_setStack ..).trans h) ..
  · exact of_raise h _

theorem of_checkLoop : m.checkLoop.Of s := by
  unfold checkLoop
  split
  · split
    · exact of_runBlock h
    · exact of_invoke h _
  · exact of_raise h _

theorem of_exitBody (es : List Json) : (m.exitBody es).Of s := by
  unfold exitBody
  split
  · exact of_go ((root_sequence_setStack ..).trans h) _
  · exact of_raise h _

theorem of_repeatBody (es : List Json) : (m.repeatBody es).Of s := by
  unfold repeatBody
  split
  · exact of_park ((root_sequence_setStack ..).trans h) _
  · exact of_raise h _

theorem of_branch (e : Option (Entry κ)) : (m.branch e).Of s := by
  cases e with
  | some e => exact of_go h _
  | none => exact of_go h _

theorem of_next : m.next.Of s := by
  unfold next
  split
  · exact of_raise h _
  · split
    · exact of_park ((root_sequence_setJump ..).trans h) _
    · exact of_advance h

theorem of_endChild (c : Child κ) (cs : List (Child κ)) (t : Task κ) :
    (let m : Machine κ := { m with children := cs }
    match c.role with
    | .loopBody => (m.exitBody c.frame.errors).noticing m.activeSequence
    | .nested => (m.emitOr c.frame.errors t).noticing m.activeSequence).Of s := by
  have hm : ({ m with children := cs } : Machine κ).root.sequence = s := h
  split
  · exact (of_exitBody hm _).noticing _
  · exact ⟨hm, nofun⟩

theorem of_proceed (primitive : String) : (m.proceed primitive).Of s := by
  unfold proceed
  split
  · exact of_raise h _
  · split
    · exact of_runBlock h
    · exact of_branch ((root_sequence_setStack ..).trans h) _
    · split
      · exact of_raise h _
      next c cs hc =>
        have hm : ({ m with children := cs } : Machine κ).root.sequence = s := h
        dsimp only
        split
        · exact (of_repeatBody hm _).noticing _
        · exact (of_go ((root_sequence_recordErrors ..).trans hm) _).noticing _

theorem of_leave : m.leave.Of s := by
  have hj : (m.setJump none).root.sequence = s := (root_sequence_setJump ..).trans h
  unfold leave
  split
  · exact of_stop h
  · dsimp only
    split
    · exact of_branch ((root_sequence_setStack ..).trans hj) _
    · exact of_go ((root_sequence_setStack ..).trans hj) _
    · split
      · exact of_go hj _
      · exact of_endChild hj _ _ .leave

theorem of_complete : m.complete.Of s := by
  unfold complete
  split
  · exact of_go h _
  · split
    · exact of_go h _
    · exact of_endChild h _ _ .next

theorem of_goto (text : String) : (m.goto text).Of s := by
  unfold goto
  split
  · exact of_raise h _
  · split
    · exact of_raise h _
    · split_ifs
      · exact of_go h _
      · exact of_go h _
      · exact of_go h _
      · split
        · exact of_raise h _
        · exact of_advance ((root_sequence_modifyActive _ fun _ => by rfl).trans h)

theorem of_emit (values : List Json) (breakOnEmit : Bool) : (m.emit values breakOnEmit).Of s := by
  unfold emit
  split
  · exact ⟨h, nofun⟩
  · split
    · exact of_go ((root_sequence_setStack ..).trans h) _
    · exact of_go ((root_sequence_recordErrors ..).trans h) _

theorem of_finish : m.finish.Of s := by
  unfold finish
  split
  · exact of_stop h
  · dsimp only
    split
    · refine ⟨(root_sequence_modifyActive _ fun _ => by rfl).trans h, fun o handler he => ?_⟩
      obtain ⟨rfl, rfl⟩ := Sequel.finished.inj he
      rw [root_sequence_modifyActive _ fun _ => by rfl, h]
      cases Outcome.ofErrors _ <;> rfl
    · refine (of_go ?_ _).noticing _
      rw [root_sequence_recordErrors]
      exact (root_sequence_modifyActive _ fun _ => by rfl).trans h

theorem of_dispatch (e : Entry κ) (fallback : Option String) : (m.dispatch e fallback).Of s := by
  have hj : (m.setJump (e.jump.or fallback)).root.sequence = s :=
    (root_sequence_setJump ..).trans h
  have hc (c : Construct κ) :
      ((m.setJump (e.jump.or fallback)).pushConstruct c).root.sequence = s :=
    (root_sequence_pushConstruct ..).trans hj
  unfold dispatch
  split
  · exact of_invoke hj _
  · exact of_invoke (hc _) _
  · exact of_checkLoop (hc _)
  · exact of_park hj _
  · exact ⟨hj, nofun⟩
  · exact of_go hj _
  · exact of_invoke hj _
  · exact of_descend hj ..

theorem of_exitLoop (st : LoopState κ) : (m.exitLoop st).Of s := by
  have hr : (m.resumeAfterLoop st.loop).Of s := of_go ((root_sequence_setJump ..).trans h) _
  unfold exitLoop
  repeat' split
  all_goals first | exact of_go h _ | exact hr

theorem of_step (t : Task κ) : (m.step t).Of s := by
  cases t with
  | next => exact of_next h
  | proceed primitive => exact of_proceed h primitive
  | leave => exact of_leave h
  | complete => exact of_complete h
  | goto label => exact of_goto h label
  | errors values breakOnEmit => exact of_emit h values breakOnEmit
  | finish => exact of_finish h
  | dispatch entry fallback => exact of_dispatch h entry fallback
  | checkLoop => exact of_checkLoop h
  | exitLoop state => exact of_exitLoop h state

end

theorem Live.root_sequence_turn (h : m.Live) (hp : m.parked = none) {t : Task κ} (ht : t.Fits m)
    {windingUp : Bool} (hw : windingUp = true → t = .finish) :
    (m.turn t windingUp).machine.root.sequence = m.root.sequence := by
  have hs := (of_step (m := m) rfl t).1
  rcases h.turn_cases hp ht hw with ⟨a, -, he⟩ | ⟨f, -, he⟩
  · rw [he, hs]
  · rw [he]
    exact hs

theorem Live.handler_turn (h : m.Live) (hp : m.parked = none) {t : Task κ} (ht : t.Fits m)
    {windingUp : Bool} (hw : windingUp = true → t = .finish) {o : Outcome} {handler : Option κ}
    (ha : (m.turn t windingUp).act = .finished o handler) :
    handler = m.root.sequence.handler o := by
  rcases h.turn_cases hp ht hw with ⟨a, hq, he⟩ | ⟨f, -, he⟩ <;> rw [he] at ha
  · obtain rfl : a = .finished o handler := ha
    exact (of_step (m := m) rfl t).2 o handler (Sequel.eq_finished_of_act? hq)
  · exact absurd ha nofun

theorem Over.active_not_mem_turn (h : m.Over) (s : Signal) (a : ActiveSequence) :
    .active a ∉ (m.turn s.task false).notices := by
  cases s <;>
    simp [Signal.task, Machine.turn, step, next, proceed, leave, goto, emit, finish, raise,
    stop, h.active_finished, abort, h.finished]

end Machine

namespace Turn
variable {u : Turn κ}

/-- The run is over, and the turn does no more than apply a signal to it. -/
def Idles (u : Turn κ) : Prop :=
  u.machine.Over ∧ match u.act with
    | .work t windingUp => windingUp = false ∧ ∃ s : Signal, t = s.task
    | .call _ | .resolve _ _ => False
    | .settle | .finished _ _ => True

theorem Occurs.idles (h : u.Occurs) (hf : u.machine.isFinished = true) : u.Idles := by
  have not_live (hl : u.machine.Live) : u.Idles := absurd (hl.isFinished.symm.trans hf) nofun
  rcases h.cases with hu | ⟨⟨ha, -⟩, hw⟩ | ⟨ho, s, ha⟩
  · obtain ⟨m, ns, a⟩ := u
    cases a with
    | work | settle | call | resolve => exact not_live hu.1
    | finished => exact ⟨hu.1, trivial⟩
  · refine ⟨⟨hf, (hw.ended hf).1, (hw.ended hf).2, hw.parked⟩, ?_⟩
    rw [ha]
    trivial
  · refine ⟨ho, ?_⟩
    rw [ha]
    exact ⟨rfl, s, rfl⟩

theorem Underway.live (h : u.Underway) (hne : ∀ o handler, u.act ≠ .finished o handler) :
    u.machine.Live := by
  obtain ⟨m, ns, a⟩ := u
  cases a with
  | finished o handler => exact absurd rfl (hne o handler)
  | work | settle | call | resolve => exact h.1

theorem Occurs.underway_of_work (h : u.Occurs) (hf : u.machine.isFinished = false) {t : Task κ}
    {windingUp : Bool} (ha : u.act = .work t windingUp) : u.Underway := by
  rcases h.cases with hu | ⟨⟨hs, -⟩, -⟩ | ⟨ho, -⟩
  · exact hu
  · exact absurd (ha.symm.trans hs) nofun
  · exact absurd (hf.symm.trans ho.finished) nofun

end Turn
end Sequencer
