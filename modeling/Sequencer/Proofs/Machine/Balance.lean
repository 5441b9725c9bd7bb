import Sequencer.Proofs.Machine.Ledger
import Sequencer.Proofs.Machine.WellFormed

/-! Moves balance the ledger. What a machine held before a move and what was carried to it is held
after the move or carried on, but for the errors of loops that the move gives up. -/

namespace Sequencer
variable {κ : Type}

/-- The move starts from the machine with the errors carried to it: all are kept or carried on but
those lost, and the errors of the root are only added to. -/
structure Move.Balances (mv : Move κ) (m : Machine κ) (carried lost : Multiset Json) : Prop where
  held : mv.machine.held + mv.sequel.carried + lost = m.held + carried
  root : m.root.errors <+: mv.machine.root.errors

theorem Move.Balances.startFrom {mv : Move κ} {m m' : Machine κ} {c c' lost : Multiset Json}
    (h : mv.Balances m' c' lost) (hh : m'.held + c' = m.held + c)
    (hr : m.root.errors <+: m'.root.errors) : mv.Balances m c lost :=
  ⟨h.held.trans hh, hr.trans h.root⟩

theorem Move.Balances.losing {mv : Move κ} {m m' : Machine κ} {lost : Multiset Json}
    (h : mv.Balances m' 0 0) (hh : m'.held + lost = m.held)
    (hr : m.root.errors <+: m'.root.errors) : mv.Balances m 0 lost := by
  refine ⟨?_, hr.trans h.root⟩
  have := h.held
  rw [add_zero, add_zero] at this
  rw [this, hh, add_zero]

theorem Move.Balances.dropping {mv : Move κ} {m : Machine κ} (h : mv.Balances m 0 0)
    (lost : Multiset Json) : mv.Balances m lost lost := by
  refine ⟨?_, h.root⟩
  rw [← add_zero m.held, ← h.held, add_zero]

theorem Move.Balances.noticing {mv : Move κ} {m : Machine κ} {c lost : Multiset Json}
    (h : mv.Balances m c lost) (s : ActiveSequence) : (mv.noticing s).Balances m c lost :=
  ⟨h.held, h.root⟩

namespace Machine
variable {m : Machine κ}

theorem root_errors_setStack (m : Machine κ) (r : List (Construct κ)) :
    m.root.errors <+: (m.setStack r).root.errors := by
  rw [setStack, root_errors_modifyActive _ fun _ => by rfl]

theorem root_errors_setJump (m : Machine κ) (j : Option String) :
    m.root.errors <+: (m.setJump j).root.errors := by
  rw [setJump, root_errors_modifyActive _ fun _ => by rfl]

theorem root_errors_pushConstruct (m : Machine κ) (c : Construct κ) :
    m.root.errors <+: (m.pushConstruct c).root.errors := by
  rw [pushConstruct, root_errors_modifyActive _ fun _ => by rfl]

theorem balances_go (m : Machine κ) (t : Task κ) : (m.go t).Balances m t.carried 0 :=
  ⟨by simp [go, Sequel.carried], List.prefix_rfl⟩

theorem balances_park (m : Machine κ) (p : Parked) : (m.park p).Balances m 0 0 :=
  ⟨by simp [park, stop, Sequel.carried, held], List.prefix_rfl⟩

theorem balances_raise (m : Machine κ) (f : Fault) : (m.raise f).Balances m 0 0 :=
  ⟨by simp [raise, Sequel.carried], List.prefix_rfl⟩

theorem balances_invoke (m : Machine κ) (c : MethodCall κ) : (m.invoke c).Balances m 0 0 :=
  ⟨by simp [invoke, Sequel.carried], List.prefix_rfl⟩

theorem balances_advance (m : Machine κ) : m.advance.Balances m 0 0 := by
  unfold advance
  split
  · refine (balances_go _ _).startFrom ?_ ?_
    · exact congrArg (· + 0) (held_modifyActive_of_eq rfl)
    · rw [root_errors_modifyActive _ fun _ => by rfl]
  · exact balances_go ..

theorem balances_descend (m : Machine κ) (role : Role) (s : Sequence κ) :
    (m.descend role s).Balances m 0 0 := by
  have hb := (balances_go (m.enter role s) .next).noticing (m.enter role s).activeSequence
  exact hb.startFrom (by rw [held_enter]; rfl) List.prefix_rfl

theorem balances_runBlock (m : Machine κ) : m.runBlock.Balances m 0 0 := by
  unfold runBlock
  split
  next st r hst =>
    refine (balances_descend ..).startFrom ?_ (root_errors_setStack ..)
    have hs := held_setStack_loop hst { st with ran := true }
    exact congrArg (· + 0) (add_right_cancel hs)
  next => exact balances_raise ..

theorem balances_checkLoop (m : Machine κ) : m.checkLoop.Balances m 0 0 := by
  unfold checkLoop
  split
  · split
    · exact balances_runBlock m
    · exact balances_invoke ..
  · exact balances_raise ..

theorem balances_branch (m : Machine κ) (e : Option (Entry κ)) : (m.branch e).Balances m 0 0 := by
  cases e with
  | some e => exact balances_go ..
  | none => exact balances_go ..

theorem balances_resumeAfterLoop (m : Machine κ) (l : Loop κ) :
    (m.resumeAfterLoop l).Balances m 0 0 :=
  (balances_go (m.setJump l.jump) .next).startFrom (by rw [held_setJump]; rfl)
    (root_errors_setJump ..)

theorem balances_exitBody (hl : ∃ st r, m.active.stack = .loop st :: r) (es : List Json) :
    (m.exitBody es).Balances m es 0 := by
  obtain ⟨st, r, hst⟩ := hl
  simp only [exitBody, hst]
  refine (balances_go _ _).startFrom ?_ (root_errors_setStack ..)
  rw [← held_popLoop hst]
  simp only [Task.carried, ← Multiset.coe_add, add_assoc]

theorem balances_repeatBody (hl : ∃ st r, m.active.stack = .loop st :: r) (es : List Json) :
    (m.repeatBody es).Balances m es 0 := by
  obtain ⟨st, r, hst⟩ := hl
  simp only [repeatBody, hst]
  refine (balances_park _ _).startFrom ?_ (root_errors_setStack ..)
  rw [held_addToLoop hst, add_zero]

theorem balances_emitOr (m : Machine κ) (es : List Json) {t : Task κ} (ht : t.carried = 0) :
    (m.emitOr es t).Balances m es 0 := by
  unfold emitOr
  split
  next he =>
    obtain rfl := List.isEmpty_iff.mp he
    have hb := balances_go m t
    rwa [ht] at hb
  next => exact balances_go ..

theorem balances_next (m : Machine κ) : m.next.Balances m 0 0 := by
  unfold next
  split
  · exact balances_raise ..
  · split
    · exact (balances_park ..).startFrom (by rw [held_setJump]) (root_errors_setJump ..)
    · exact balances_advance m

theorem held_leaveChild {c : Child κ} {cs : List (Child κ)} (hc : m.children = c :: cs)
    (hst : m.active.stack = []) :
    m.held = ({ m with children := cs } : Machine κ).held + c.frame.errors := by
  have ha : m.active = c.frame := by simp only [active, hc]
  rw [held_children hc, Frame.held, Frame.loops, ← ha, hst]
  simp

theorem Live.balances_proceed (h : m.Live) (primitive : String) :
    (m.proceed primitive).Balances m 0 0 := by
  unfold Machine.proceed
  split
  · exact balances_raise ..
  · split
    next => exact balances_runBlock m
    next c r hst =>
      exact (balances_branch ..).startFrom (by rw [held_popConditional hst])
        (root_errors_setStack ..)
    next hst =>
      split
      next => exact balances_raise ..
      next c cs hc =>
        have hh := held_leaveChild hc hst
        dsimp only
        split
        next hr =>
          obtain ⟨st, r, hst, -⟩ := h.body hc hr
          exact ((balances_repeatBody ⟨st, r, hst⟩ _).noticing _).startFrom (by simp [hh])
            List.prefix_rfl
        next hr =>
          refine ((balances_go _ _).noticing _).startFrom ?_
            (root_errors_recordErrors { m with children := cs } _)
          rw [held_recordErrors, hh]
          rfl

theorem Live.balances_endChild (h : m.Live) {c : Child κ} {cs : List (Child κ)}
    (hc : m.children = c :: cs) (hst : m.active.stack = []) {t : Task κ} (ht : t.carried = 0) :
    (let m : Machine κ := { m with children := cs }
    match c.role with
    | .loopBody => (m.exitBody c.frame.errors).noticing m.activeSequence
    | .nested => (m.emitOr c.frame.errors t).noticing m.activeSequence).Balances m 0 0 := by
  have hh := held_leaveChild hc hst
  dsimp only
  split
  next hr =>
    obtain ⟨st, r, hst, -⟩ := h.body hc hr
    exact ((balances_exitBody ⟨st, r, hst⟩ _).noticing _).startFrom (by simp [hh]) List.prefix_rfl
  next hr =>
    exact ((balances_emitOr _ _ ht).noticing _).startFrom (by simp [hh]) List.prefix_rfl

theorem Live.balances_leave (h : m.Live) : m.leave.Balances m 0 0 := by
  have hj := h.setJump none
  simp only [Machine.leave, h.active_finished, Bool.false_eq_true, if_false]
  refine @Move.Balances.startFrom _ _ m (m.setJump none) 0 0 0 ?_ (by rw [held_setJump])
    (root_errors_setJump ..)
  split
  next c r hst =>
    exact (balances_branch ..).startFrom (by rw [held_popConditional hst])
      (root_errors_setStack ..)
  next st r hst =>
    refine (balances_go _ _).startFrom ?_ (root_errors_setStack ..)
    exact (held_popLoop hst).trans (add_zero _).symm
  next hst =>
    split
    next => exact balances_go ..
    next c cs hc => exact hj.balances_endChild hc hst (t := .leave) rfl

theorem Live.balances_complete (h : m.Live) : m.complete.Balances m 0 0 := by
  unfold Machine.complete
  split
  next => exact balances_go ..
  next hst =>
    split
    next => exact balances_go ..
    next c cs hc => exact h.balances_endChild hc (by simpa using hst) (t := .next) rfl

theorem balances_goto (h : m.active.finished = false) (text : String) :
    (m.goto text).Balances m 0 (pending (m.dropped (.goto text))) := by
  simp only [goto, h, Bool.false_eq_true, if_false]
  cases hc : Label.clean text with
  | none => simpa [dropped, target?, hc] using balances_raise m .emptyLabel
  | some l =>
    -- Reserved labels hand over to other tasks, which have their own losses.
    by_cases hl : l = "continue" ∨ l = "break" ∨ l = "end"
    · have hd : m.dropped (.goto text) = [] := by simp [dropped, target?, hc, hl]
      rw [hd]
      rcases hl with rfl | rfl | rfl
      · exact balances_go ..
      · exact balances_go ..
      · exact balances_go ..
    · have ht : m.target? text = m.active.sequence.labelIndex l := by simp [target?, hc, hl]
      simp only [not_or] at hl
      simp only [hl, if_false, dropped, ht]
      cases m.active.sequence.labelIndex l with
      | none => exact balances_raise ..
      | some i =>
        refine (balances_advance _).losing (held_clearStack m (by intro; rfl) (by intro; rfl)) ?_
        rw [root_errors_modifyActive _ fun _ => by rfl]

theorem balances_emit (h : m.active.finished = false) (values : List Json) (breakOnEmit : Bool) :
    (m.emit values breakOnEmit).Balances m values 0 := by
  simp only [emit, h, Bool.false_eq_true, if_false]
  split
  next st r hst =>
    refine (balances_go _ _).startFrom ?_ (root_errors_setStack ..)
    rw [held_addToLoop hst]
    exact add_zero _
  next =>
    refine (balances_go _ _).startFrom ?_ (root_errors_recordErrors ..)
    rw [held_recordErrors]
    split <;> exact add_zero _

theorem balances_finish (h : m.active.finished = false) :
    m.finish.Balances m 0 (pending (m.dropped .finish)) := by
  simp only [finish, h, Bool.false_eq_true, if_false, dropped]
  obtain ⟨r, cs, p⟩ := m
  cases cs with
  | nil =>
    refine ⟨?_, List.prefix_rfl⟩
    simp [modifyActive, active, held, Frame.held, Frame.loops, Sequel.carried]
  | cons c cs =>
    -- The frame below takes over the errors of the frame, but not those of its loops.
    have hb := (balances_go (({ root := r, children := cs, parked := p } : Machine κ).recordErrors
      c.frame.errors) .finish).noticing (activeSequence { root := r, children := cs, parked := p })
    refine hb.losing ?_ (root_errors_recordErrors { root := r, children := cs, parked := p } _)
    rw [held_recordErrors, held_children (m := ⟨r, c :: cs, p⟩) rfl, Frame.held, add_assoc]
    rfl

theorem balances_dispatch (m : Machine κ) (e : Entry κ) (fallback : Option String) :
    (m.dispatch e fallback).Balances m (Task.message (.dispatch e fallback)) 0 := by
  unfold dispatch
  refine @Move.Balances.startFrom _ _ m (m.setJump (e.jump.or fallback)) _ _ _ ?_
    (congrArg (· + _) (held_setJump ..)) (root_errors_setJump ..)
  split
  next => exact balances_invoke ..
  next =>
    exact (balances_invoke _ _).startFrom (by rw [held_pushConditional]; rfl)
      (root_errors_pushConstruct ..)
  next =>
    exact (balances_checkLoop _).startFrom (by rw [held_pushLoop]; rfl)
      (root_errors_pushConstruct ..)
  next => exact balances_park ..
  next => exact ⟨by simp [Sequel.carried, Task.message], List.prefix_rfl⟩
  next => exact balances_go ..
  next => exact balances_invoke ..
  next => exact balances_descend ..

theorem balances_exitLoop (m : Machine κ) (st : LoopState κ) :
    (m.exitLoop st).Balances m st.errors (pending (m.dropped (.exitLoop st))) := by
  obtain ⟨l, es, ran⟩ := st
  -- A loop without errors has none to lose, whichever way it exits.
  cases es with
  | nil =>
    have hd : m.dropped (.exitLoop ⟨l, [], ran⟩) = [] := by simp [dropped, LoopState.handled]
    rw [hd]
    cases ran with
    | false => exact balances_resumeAfterLoop ..
    | true =>
      simp only [exitLoop]
      cases l.onSuccess with
      | none => exact balances_resumeAfterLoop ..
      | some e => exact balances_go ..
  | cons e es =>
    cases ran with
    | false => exact balances_go ..
    | true =>
      obtain ⟨label, control, block, onSuccess, onError, jump⟩ := l
      cases onError with
      | none => exact balances_go ..
      | some failure =>
        -- Only here are errors lost: the body ran, and the loop has an answer to them.
        have hd : pending (m.dropped (.exitLoop
            ⟨⟨label, control, block, onSuccess, some failure, jump⟩, e :: es, true⟩)) =
            ((e :: es : List Json) : Multiset Json) := add_zero _
        rw [hd]
        cases failure with
        | suppress => exact (balances_resumeAfterLoop ..).dropping _
        | handler entry => exact (balances_go m (.dispatch entry jump)).dropping _

theorem Live.balances_step (h : m.Live) (t : Task κ) :
    (m.step t).Balances m (t.carried + t.message) (pending (m.dropped t)) := by
  have hf := h.active_finished
  cases t with
  | next => exact balances_next m
  | proceed primitive => exact h.balances_proceed primitive
  | leave => exact h.balances_leave
  | complete => exact h.balances_complete
  | goto label => exact balances_goto hf label
  | errors values breakOnEmit =>
    refine (balances_emit hf values breakOnEmit).startFrom ?_ List.prefix_rfl
    simp [Task.carried, Task.message]
  | finish => exact balances_finish hf
  | dispatch entry fallback =>
    exact (balances_dispatch m entry fallback).startFrom (by simp [Task.carried]) List.prefix_rfl
  | checkLoop => exact balances_checkLoop m
  | exitLoop state =>
    refine (balances_exitLoop m state).startFrom ?_ List.prefix_rfl
    simp [Task.carried, Task.message]

end Machine
end Sequencer
