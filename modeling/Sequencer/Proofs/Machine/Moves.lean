import Mathlib.Tactic.SplitIfs
import Sequencer.Proofs.Machine.WellFormed

/-! What one move of a live machine leads to. It never ends with nothing left to do: it goes on
with a task that finds what it needs, parks something, calls user code, raises a fault, or the run
is over. -/

namespace Sequencer
variable {κ : Type}

/-- The task finds on the machine what it reads there. -/
def Task.Fits (m : Machine κ) : Task κ → Prop
  | .checkLoop => ∃ st r, m.active.stack = .loop st :: r
  | _ => True

theorem Task.fits_withParked {m : Machine κ} {p : Option Parked} {t : Task κ} :
    t.Fits { m with parked := p } ↔ t.Fits m := by
  cases t <;> rfl

theorem Signal.task_fits (s : Signal) (m : Machine κ) : s.task.Fits m := by
  cases s <;> trivial

/-- The run goes on after the move, or the move has ended it. -/
def Move.Underway (mv : Move κ) : Prop :=
  match mv.sequel with
  | .task t => mv.machine.Live ∧ mv.machine.parked = none ∧ t.Fits mv.machine
  | .settle => mv.machine.Live ∧ ∃ p, mv.machine.parked = some p ∧ p.task.Fits mv.machine
  | .call _ | .resolve _ _ => mv.machine.Live ∧ mv.machine.parked = none
  | .finished o _ => mv.machine.Over ∧ o = .ofErrors mv.machine.root.errors
  | .fault f => mv.machine.Live ∧ mv.machine.parked = none ∧ f ≠ .noLoop

namespace Machine
variable {m : Machine κ}

theorem Live.go (h : m.Live) (hp : m.parked = none) {t : Task κ} (ht : t.Fits m) :
    (m.go t).Underway := ⟨h, hp, ht⟩

theorem Live.park (h : m.Live) {p : Parked} (hp : p.task.Fits m) : (m.park p).Underway :=
  ⟨h.withParked _, p, rfl, Task.fits_withParked.mpr hp⟩

theorem Live.advance (h : m.Live) (hp : m.parked = none) : m.advance.Underway := by
  unfold Machine.advance
  split
  · refine Live.go ?_ (by simpa using hp) trivial
    exact h.modifyActive (fun _ => rfl) fun _ => rfl
  · exact h.go hp trivial

theorem Live.runBlock (h : m.Live) (hp : m.parked = none)
    (hl : ∃ st r, m.active.stack = .loop st :: r) : m.runBlock.Underway := by
  obtain ⟨st, r, hst⟩ := hl
  simp only [Machine.runBlock, hst]
  have hs : (m.setStack (.loop { st with ran := true } :: r)).active.stack =
      .loop { st with ran := true } :: r := by rw [active_setStack]
  refine Live.go ((h.setStack _).enter fun _ => ⟨_, r, hs, rfl, rfl⟩) ?_ trivial
  exact (parked_setStack ..).trans hp

theorem Live.checkLoop (h : m.Live) (hp : m.parked = none)
    (hl : ∃ st r, m.active.stack = .loop st :: r) : m.checkLoop.Underway := by
  obtain ⟨st, r, hst⟩ := hl
  simp only [Machine.checkLoop, hst]
  split
  · exact h.runBlock hp ⟨st, r, hst⟩
  · exact ⟨h, hp⟩

theorem Live.exitBody (h : m.Live) (hp : m.parked = none)
    (hl : ∃ st r, m.active.stack = .loop st :: r) (es : List Json) : (m.exitBody es).Underway := by
  obtain ⟨st, r, hst⟩ := hl
  simp only [Machine.exitBody, hst]
  exact (h.setStack r).go ((parked_setStack ..).trans hp) trivial

theorem Live.repeatBody (h : m.Live) (hl : ∃ st r, m.active.stack = .loop st :: r)
    (es : List Json) : (m.repeatBody es).Underway := by
  obtain ⟨st, r, hst⟩ := hl
  simp only [Machine.repeatBody, hst]
  -- The loop is written back before it is parked, so that the check will find it.
  exact (h.setStack _).park ⟨_, r, by rw [active_setStack]⟩

theorem Live.resumeAfterLoop (h : m.Live) (hp : m.parked = none) (l : Loop κ) :
    (m.resumeAfterLoop l).Underway := (h.setJump _).go ((parked_setJump ..).trans hp) trivial

theorem Live.branch (h : m.Live) (hp : m.parked = none) (e : Option (Entry κ)) :
    (m.branch e).Underway := by
  cases e with
  | some e => exact h.go hp trivial
  | none => exact h.go hp trivial

theorem Live.next (h : m.Live) (hp : m.parked = none) : m.next.Underway := by
  simp only [Machine.next, h.active_finished, Bool.false_eq_true, if_false]
  split
  · exact (h.setJump _).park trivial
  · exact h.advance hp

theorem Live.proceed (h : m.Live) (hp : m.parked = none) (primitive : String) :
    (m.proceed primitive).Underway := by
  simp only [Machine.proceed, h.active_finished, Bool.false_eq_true, if_false]
  split
  next st r hst => exact h.runBlock hp ⟨st, r, hst⟩
  next c r hst => exact (h.setStack r).branch ((parked_setStack ..).trans hp) _
  next hst =>
    split
    next hc => exact ⟨h, hp, nofun⟩
    next c cs hc =>
      split
      next hr =>
        -- A body stands on its loop, which therefore is there to be repeated.
        obtain ⟨st, r, hst, -⟩ := h.body hc hr
        exact (h.leaveChild hc).repeatBody ⟨st, r, hst⟩ _
      next hr =>
        exact ((h.leaveChild hc).recordErrors _).go ((parked_recordErrors ..).trans hp) trivial

theorem Live.endChild (h : m.Live) (hp : m.parked = none) {c : Child κ} {cs : List (Child κ)}
    (hc : m.children = c :: cs) {t : Task κ} (ht : ∀ m : Machine κ, t.Fits m) :
    (let m : Machine κ := { m with children := cs }
    match c.role with
    | .loopBody => (m.exitBody c.frame.errors).noticing m.activeSequence
    | .nested => (m.emitOr c.frame.errors t).noticing m.activeSequence).Underway := by
  split
  next hr =>
    obtain ⟨st, r, hst, -⟩ := h.body hc hr
    exact (h.leaveChild hc).exitBody hp ⟨st, r, hst⟩ _
  next hr =>
    refine ⟨h.leaveChild hc, hp, ?_⟩
    show Task.Fits _ (if _ then t else .errors _ true)
    split
    · exact ht _
    · trivial

theorem Live.leave (h : m.Live) (hp : m.parked = none) : m.leave.Underway := by
  have hj := h.setJump none
  have hpj : (m.setJump none).parked = none := (parked_setJump ..).trans hp
  simp only [Machine.leave, h.active_finished, Bool.false_eq_true, if_false]
  split
  next c r hst => exact (hj.setStack r).branch ((parked_setStack ..).trans hpj) _
  next st r hst => exact (hj.setStack r).go ((parked_setStack ..).trans hpj) trivial
  next hst =>
    split
    next hc => exact hj.go hpj trivial
    next c cs hc => exact hj.endChild hpj hc (t := .leave) fun _ => trivial

theorem Live.complete (h : m.Live) (hp : m.parked = none) : m.complete.Underway := by
  unfold Machine.complete
  split
  · exact h.go hp trivial
  · split
    next hc => exact h.go hp trivial
    next c cs hc => exact h.endChild hp hc (t := .next) fun _ => trivial

theorem Live.goto (h : m.Live) (hp : m.parked = none) (text : String) :
    (m.goto text).Underway := by
  simp only [Machine.goto, h.active_finished, Bool.false_eq_true, if_false]
  split
  · exact ⟨h, hp, nofun⟩
  · split_ifs
    · exact h.go hp trivial
    · exact h.go hp trivial
    · exact h.go hp trivial
    · split
      · exact ⟨h, hp, nofun⟩
      · refine Live.advance ?_ (by simpa using hp)
        exact h.modifyActive (fun _ => rfl) fun _ => rfl

theorem Live.emit (h : m.Live) (hp : m.parked = none) (values : List Json) (breakOnEmit : Bool) :
    (m.emit values breakOnEmit).Underway := by
  simp only [Machine.emit, h.active_finished, Bool.false_eq_true, if_false]
  split
  · exact (h.setStack _).go ((parked_setStack ..).trans hp) trivial
  · refine (h.recordErrors _).go ((parked_recordErrors ..).trans hp) ?_
    split <;> trivial

theorem Live.finish (h : m.Live) (hp : m.parked = none) : m.finish.Underway := by
  simp only [Machine.finish, h.active_finished, Bool.false_eq_true, if_false]
  obtain ⟨r, cs, p⟩ := m
  cases cs with
  | nil => exact ⟨⟨rfl, rfl, rfl, hp⟩, rfl⟩
  | cons c cs =>
    refine ((h.leaveChild rfl).recordErrors _).go ((parked_recordErrors ..).trans hp) trivial

theorem Live.dispatch (h : m.Live) (hp : m.parked = none) (e : Entry κ) (fallback : Option String) :
    (m.dispatch e fallback).Underway := by
  have hj := h.setJump (e.jump.or fallback)
  have hpj : (m.setJump (e.jump.or fallback)).parked = none := (parked_setJump ..).trans hp
  unfold Machine.dispatch
  split
  next c => exact ⟨hj, hpj⟩
  next c => exact ⟨hj.pushConstruct _, (parked_pushConstruct ..).trans hpj⟩
  next l =>
    exact (hj.pushConstruct _).checkLoop ((parked_pushConstruct ..).trans hpj)
      ⟨{ loop := l }, m.active.stack, by simp⟩
  next => exact hj.park trivial
  next => exact ⟨hj, hpj⟩
  next => exact hj.go hpj trivial
  next => exact ⟨hj, hpj⟩
  next s => exact (hj.enter fun hr : Role.nested = .loopBody => nomatch hr).go hpj trivial

theorem Live.exitLoop (h : m.Live) (hp : m.parked = none) (st : LoopState κ) :
    (m.exitLoop st).Underway := by
  unfold Machine.exitLoop
  split_ifs
  · exact h.resumeAfterLoop hp _
  · exact h.go hp trivial
  · split
    · exact h.go hp trivial
    · exact h.resumeAfterLoop hp _
  · split
    · exact h.go hp trivial
    · exact h.resumeAfterLoop hp _
    · exact h.go hp trivial

theorem Live.step (h : m.Live) (hp : m.parked = none) {t : Task κ} (ht : t.Fits m) :
    (m.step t).Underway := by
  cases t with
  | next => exact h.next hp
  | proceed primitive => exact h.proceed hp primitive
  | leave => exact h.leave hp
  | complete => exact h.complete hp
  | goto label => exact h.goto hp label
  | errors values breakOnEmit => exact h.emit hp values breakOnEmit
  | finish => exact h.finish hp
  | dispatch entry fallback => exact h.dispatch hp entry fallback
  | checkLoop => exact h.checkLoop hp ht
  | exitLoop state => exact h.exitLoop hp state

end Machine
end Sequencer
