import Sequencer.Proofs.Machine.Attendance
import Sequencer.Proofs.Machine.Ledger

/-! Where a sequence goes once a loop has been left. The jump of a loop is taken after a clean exit
and after errors that the loop handles; errors that it leaves to its frame let the jump stand only
if it was the body that left the loop, because a control that leaves calls the jump off. -/

namespace Sequencer
variable {κ : Type}

namespace Machine

theorem exitLoop_cases (m : Machine κ) (st : LoopState κ) :
    (m.exitLoop st = m.resumeAfterLoop st.loop ∧ (st.errors = [] ∨ st.handled = true)) ∨
    (∃ e, m.exitLoop st = m.go (.dispatch e st.loop.jump)) ∨
    m.exitLoop st = m.go (.errors st.errors true) ∧ st.errors ≠ [] ∧ st.handled = false := by
  obtain ⟨l, es, ran⟩ := st
  cases es with
  | nil =>
    cases ran with
    | false => exact .inl ⟨rfl, .inl rfl⟩
    | true =>
      cases ho : l.onSuccess with
      | none => exact .inl ⟨by simp [exitLoop, ho], .inl rfl⟩
      | some e => exact .inr (.inl ⟨e, by simp [exitLoop, ho]⟩)
  | cons e es =>
    cases ran with
    | false => exact .inr (.inr ⟨rfl, List.cons_ne_nil e es, rfl⟩)
    | true =>
      simp only [exitLoop, LoopState.handled]
      cases l.onError with
      | none => exact .inr (.inr ⟨rfl, List.cons_ne_nil e es, rfl⟩)
      | some failure =>
        cases failure with
        | suppress => exact .inl ⟨rfl, .inr rfl⟩
        | handler entry => exact .inr (.inl ⟨entry, rfl⟩)

theorem emit_of_next {m : Machine κ} {vs : List Json} {b : Bool}
    (h : (m.emit vs b).sequel = .task .next) : (m.emit vs b).machine = m.recordErrors vs := by
  unfold emit at h ⊢
  split at h
  · exact absurd h nofun
  next hf =>
    rw [if_neg hf]
    split at h
    · exact absurd h nofun
    · rfl

end Machine

namespace Turn

/-- The active frame goes on, at once or after errors have been recorded in it. -/
inductive GoesOn (y : Turn κ) : Turn κ → Prop
  | directly {w : Bool} (ha : y.act = .work .next w) : GoesOn y y
  | recording {x : Turn κ} {vs : List Json} {b w w' : Bool} (ha : y.act = .work (.errors vs b) w)
    (hn : Next y x) (hx : x.act = .work .next w') : GoesOn y x

def Resumes (v x : Turn κ) : Prop := ∃ y, Next v y ∧ y.GoesOn x

/-- The active frame goes to a label instead of its next entry: going there is parked, and then
taken up. -/
def Fires (label : String) (x : Turn κ) : Prop :=
  ∃ y, Next x y ∧ y.act = .settle ∧ Next y ⟨x.machine.setJump none, [], .work (.goto label) false⟩

section
variable {v x : Turn κ} {label : String}

theorem GoesOn.act {y : Turn κ} (h : y.GoesOn x) : ∃ w, x.act = .work .next w := by
  cases h with
  | directly ha => exact ⟨_, ha⟩
  | recording _ _ hx => exact ⟨_, hx⟩

theorem GoesOn.start {y : Turn κ} (h : y.GoesOn x) :
    ∃ t w, y.act = .work t w ∧ (t = .next ∨ ∃ vs b, t = .errors vs b) := by
  cases h with
  | directly ha => exact ⟨_, _, ha, .inl rfl⟩
  | recording ha _ _ => exact ⟨_, _, ha, .inr ⟨_, _, rfl⟩⟩

theorem Resumes.act (h : v.Resumes x) : ∃ w, x.act = .work .next w := by
  obtain ⟨y, -, hy⟩ := h
  exact hy.act

theorem Next.of_settle (hn : Next v x) (ha : v.act = .settle) :
    ∃ p, v.machine.parked = some p ∧ x = ⟨v.machine.unpark, [], .work p.task false⟩ := by
  obtain ⟨m, ns, a⟩ := v
  obtain rfl : a = .settle := ha
  cases hn with
  | unpark hp => exact ⟨_, hp, rfl⟩

theorem fires_iff (hx : x.Underway) {w : Bool} (ha : x.act = .work .next w) :
    x.Fires label ↔ x.machine.active.pendingJump = some label := by
  obtain ⟨m, ns, a⟩ := x
  obtain rfl : a = .work .next w := ha
  have hf : m.active.finished = false := hx.1.active_finished
  have hjump {l : String} (hj : m.active.pendingJump = some l) :
      m.step .next = (m.setJump none).park (.goto l) := by
    simp only [Machine.step, Machine.next, hf, hj, Bool.false_eq_true, if_false]
  have hplain (hj : m.active.pendingJump = none) : m.step .next = m.advance := by
    simp only [Machine.step, Machine.next, hf, hj, Bool.false_eq_true, if_false]
  constructor
  · rintro ⟨y, hy, hya, hz⟩
    obtain ⟨p, hp, hz⟩ := hz.of_settle hya
    obtain ⟨hm, hs⟩ := hy.move hx rfl fun w' he => by
      rw [hya] at he
      cases he
    cases hj : m.active.pendingJump with
    | none =>
      rw [hplain hj, hya] at hs
      rcases m.advance_cases with ⟨e, hadv⟩ | hadv
      all_goals
        rw [hadv] at hs
        cases hs
    | some l =>
      rw [hjump hj] at hm
      obtain rfl : Parked.goto l = p := Option.some.inj ((congrArg Machine.parked hm).symm.trans hp)
      obtain rfl : label = l := Task.goto.inj (Act.work.inj (congrArg Turn.act hz)).1
      rfl
  · intro hj
    have hj : m.active.pendingJump = some label := hj
    have hturn : m.turn .next w =
        ⟨{ m.setJump none with parked := some (.goto label) }, [], .settle⟩ := by
      simp only [Machine.turn, hjump hj]
      rfl
    have hp : (m.setJump none).parked = none := (Machine.parked_setJump ..).trans hx.2.1
    refine ⟨m.turn .next w, .work, by rw [hturn], ?_⟩
    rw [hturn]
    exact .of_parked hp [] (.goto label)

theorem GoesOn.underway {y : Turn κ} (h : y.GoesOn x) (hy : y.Underway) : x.Underway := by
  cases h with
  | directly => exact hy
  | recording ha hn => exact hn.underway_of_work hy ha

theorem Resumes.underway (h : v.Resumes x) (hv : v.Underway) {t : Task κ} {w : Bool}
    (ha : v.act = .work t w) : x.Underway := by
  obtain ⟨y, hn, hy⟩ := h
  exact hy.underway (hn.underway_of_work hv ha)

theorem GoesOn.machine {y : Turn κ} (h : y.GoesOn x) (hy : y.Underway) :
    (∃ w, y.act = .work .next w ∧ x.machine = y.machine) ∨
      ∃ vs b w, y.act = .work (.errors vs b) w ∧ x.machine = y.machine.recordErrors vs := by
  cases h with
  | directly ha => exact .inl ⟨_, ha, rfl⟩
  | recording ha hn hx =>
    obtain ⟨hm, hs⟩ := hn.move_task hy ha hx nofun
    rw [Machine.step, Machine.emit_of_next hs] at hm
    exact .inr ⟨_, _, _, ha, hm⟩

theorem GoesOn.recordErrors {y : Turn κ} (h : y.GoesOn x) (hy : y.Underway) :
    ∃ es, x.machine = y.machine.recordErrors es := by
  rcases h.machine hy with ⟨w, -, hx⟩ | ⟨es, b, w, -, hx⟩
  · exact ⟨[], hx.trans (Machine.recordErrors_nil _).symm⟩
  · exact ⟨es, hx⟩

/-- After a loop a frame goes on with the jump of the loop, or it has recorded errors and goes on
with the jump that was pending. -/
theorem Resumes.of_exitLoop (h : v.Resumes x) (hv : v.Underway) {st : LoopState κ} {w : Bool}
    (ha : v.act = .work (.exitLoop st) w) :
    (x.machine = v.machine.setJump st.loop.jump ∧ (st.errors = [] ∨ st.handled = true)) ∨
    x.machine = v.machine.recordErrors st.errors ∧ st.errors ≠ [] ∧ st.handled = false := by
  obtain ⟨y, hn, hy⟩ := h
  rcases hy.machine (hn.underway_of_work hv ha) with ⟨w', hya, hx⟩ | ⟨vs, b, w', hya, hx⟩
  all_goals
    obtain ⟨hm, hs⟩ := hn.move_task hv ha hya nofun
    dsimp only [Machine.step] at hm hs
    rw [hx, hm]
    rcases v.machine.exitLoop_cases st with ⟨he, hc⟩ | ⟨e, he⟩ | ⟨he, hc⟩ <;> rw [he] at hs ⊢
  · exact .inl ⟨rfl, hc⟩
  · exact absurd hs nofun
  · exact absurd hs nofun
  · exact absurd hs nofun
  · exact absurd hs nofun
  · obtain ⟨rfl, -⟩ := Task.errors.inj (Sequel.task.inj hs)
    exact .inr ⟨rfl, hc⟩

end

/-- Once a loop with a jump has been left and its frame goes on, the frame is as it was when the
loop was dispatched, up to the pending jump and recorded errors. The jump is taken unless the
control left the loop and errors were recorded. -/
theorem loop_jump_fires_iff {d u v x : Turn κ} (hd : d.Occurs) {l : Loop κ} {label : String}
    {fallback : Option String} {windingUp : Bool}
    (ha : d.act = .work (.dispatch (.loop l) fallback) windingUp) (hj : l.jump = some label)
    {st : LoopState κ} (hl : d.Leaves u v st) (hx : v.Resumes x) :
    (∃ j es, x.machine = (d.machine.setJump j).recordErrors es) ∧
      (x.Fires label ↔ st.errors = [] ∨ st.handled = true ∨
        d.machine.children.length < u.machine.children.length) := by
  obtain ⟨w, hv⟩ := hl.routed
  have hvu := hl.underway hd
  obtain ⟨w', hxa⟩ := hx.act
  rw [fires_iff (hx.underway hvu hv) hxa]
  obtain ⟨rfl, hq⟩ := hl.cases hd ha
  rw [hj, Option.some_or] at hq
  rcases hx.of_exitLoop hvu hv with ⟨hm, hc⟩ | ⟨hm, hne, hh⟩
  · have hxm : x.machine = d.machine.setJump (some label) := by
      rw [hm, hj]
      rcases hq with ⟨-, hvm⟩ | ⟨-, hvm⟩ <;> rw [hvm, Machine.setJump_setJump]
    refine ⟨⟨some label, [], hxm.trans (Machine.recordErrors_nil _).symm⟩, ?_⟩
    rw [hxm, Machine.active_setJump]
    exact iff_of_true rfl (hc.imp_right .inl)
  · rcases hq with ⟨hu, hvm⟩ | ⟨hu, hvm⟩
    · rw [hvm] at hm
      refine ⟨⟨none, st.errors, hm⟩, ?_⟩
      rw [hm, Machine.active_recordErrors, Machine.active_setJump]
      refine iff_of_false nofun ?_
      rintro (he | he | hlt)
      · exact hne he
      · exact absurd (hh.symm.trans he) nofun
      · exact absurd hu (Nat.ne_of_gt hlt)
    · rw [hvm] at hm
      refine ⟨⟨some label, st.errors, hm⟩, ?_⟩
      rw [hm, Machine.active_recordErrors, Machine.active_setJump]
      exact iff_of_true rfl (.inr (.inr hu))

def skipping : Sequence Unit :=
  (({ breakOnError := false } : Sequence Unit).push
    (.loop ⟨none, .method { operation := () }, { entries := [.method { operation := () }] }, none,
      none, some "last"⟩)).push (.method { operation := () }) |>.push
    (.method { label := some "last", operation := () })

theorem skipping_left : ∃ (d u v x : Turn Unit) (l : Loop Unit) (st : LoopState Unit),
    d.Occurs ∧ d.act = .work (.dispatch (.loop l) none) false ∧ l.jump = some "last" ∧
      d.Leaves u v st ∧ v.Resumes x ∧ x.machine.active.pendingJump = none := by
  have hd : Occurs ((Machine.start skipping).turn .next false) :=
    ((Occurs.start skipping).receive rfl .next).next .work
  have asked : InLoop ((Machine.start skipping).turn .next false) _ :=
    .enter .work ⟨⟨Nat.le_refl _, Nat.zero_lt_one⟩, nofun⟩
  have told := asked.receive trivial (.errors [.string "bad"])
    ⟨⟨Nat.le_refl _, Nat.zero_lt_one⟩, nofun⟩
  have leaving := told.next .work ⟨⟨Nat.le_refl _, Nat.zero_lt_one⟩, nofun⟩
  refine ⟨_, _, _, _, _, _, hd, rfl, rfl, ⟨leaving, .work, ?_, _, rfl⟩,
    ⟨_, .work, .recording rfl .work rfl⟩, rfl⟩
  rintro ⟨-, hlt⟩
  exact absurd hlt (Nat.lt_irrefl 0)

theorem skipping_jump_fires_iff : ∃ (d u v x : Turn Unit) (l : Loop Unit) (st : LoopState Unit),
    d.Occurs ∧ d.act = .work (.dispatch (.loop l) none) false ∧ l.jump = some "last" ∧
      d.Leaves u v st ∧ v.Resumes x ∧
      (∃ j es, x.machine = (d.machine.setJump j).recordErrors es) ∧
      (x.Fires "last" ↔ st.errors = [] ∨ st.handled = true ∨
        d.machine.children.length < u.machine.children.length) := by
  obtain ⟨d, u, v, x, l, st, hd, ha, hj, hl, hx, -⟩ := skipping_left
  exact ⟨d, u, v, x, l, st, hd, ha, hj, hl, hx, loop_jump_fires_iff hd ha hj hl hx⟩

/-- A frame may go on past the entry to which a loop in it leads. -/
theorem not_all_loop_jumps_fire :
    ¬ ∀ (d u v x : Turn Unit) (l : Loop Unit) (st : LoopState Unit) (label : String)
      (fallback : Option String) (w : Bool), d.Occurs →
      d.act = .work (.dispatch (.loop l) fallback) w → l.jump = some label → d.Leaves u v st →
      v.Resumes x → x.Fires label := by
  intro hall
  obtain ⟨d, u, v, x, l, st, hd, ha, hj, hl, hx, hnone⟩ := skipping_left
  obtain ⟨w, hv⟩ := hl.routed
  obtain ⟨w', hxa⟩ := hx.act
  have hfires := hall d u v x l st _ _ _ hd ha hj hl hx
  rw [fires_iff (hx.underway (hl.underway hd) hv) hxa, hnone] at hfires
  exact absurd hfires nofun

end Turn
end Sequencer
