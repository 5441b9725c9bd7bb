import Sequencer.Proofs.Machine.Beneath
import Sequencer.Proofs.Machine.Termination

/-! How a run is ended. The frames hand down their errors one after the other, and nothing else is
done on the way: the outcome has the errors of the root and then those of the frames above it,
outermost first. -/

namespace Sequencer
variable {κ : Type}

theorem Sequence.ite_isSuccess (s : Sequence κ) (o : Outcome) :
    (if o.isSuccess then s.onSuccess else s.onError) = s.handler o := by
  cases o <;> rfl

namespace Machine
variable {m : Machine κ}

/-- The errors of all frames: the root's, and then those of the others, outermost first. -/
def gathered (m : Machine κ) : List Json :=
  m.root.errors ++ m.children.reverse.flatMap fun c => c.frame.errors

theorem gathered_recordErrors (m : Machine κ) (es : List Json) :
    (m.recordErrors es).gathered = m.gathered ++ es := by
  obtain ⟨r, cs, p⟩ := m
  cases cs <;> simp [recordErrors, modifyActive, gathered, Frame.record]

theorem gathered_leaveChild {c : Child κ} {cs : List (Child κ)} (hc : m.children = c :: cs) :
    (recordErrors { m with children := cs } c.frame.errors).gathered = m.gathered := by
  rw [gathered_recordErrors]
  simp [gathered, hc]

theorem gathered_foldFault (m : Machine κ) (f : Fault) :
    (m.foldFault f).gathered = m.gathered ++ [.string f.message] := by
  simp [foldFault, collapse, gathered, Frame.record]

theorem Over.gathered (h : m.Over) : m.gathered = m.root.errors := by
  simp [Machine.gathered, h.children]

theorem Live.step_finish_root (h : m.Live) (hc : m.children = []) :
    m.step .finish = ⟨m.modifyActive fun f =>
        { f with finished := true, pendingJump := none, stack := [] }, [],
      .finished (.ofErrors m.root.errors) (m.root.sequence.handler (.ofErrors m.root.errors))⟩ := by
  have hf := h.active_finished
  obtain ⟨r, cs, p⟩ := m
  obtain rfl : cs = [] := hc
  have hr : r.finished = false := hf
  simp only [Machine.step, Machine.finish, Machine.modifyActive, Machine.active, hr,
    Bool.false_eq_true, if_false]
  exact congrArg (fun handler => Move.mk _ [] (.finished _ handler))
    (Sequence.ite_isSuccess r.sequence _)

theorem Live.step_finish_child (h : m.Live) {c : Child κ} {cs : List (Child κ)}
    (hc : m.children = c :: cs) :
    m.step .finish = Move.noticing
      ((Machine.recordErrors { m with children := cs } c.frame.errors).go .finish)
      (activeSequence { m with children := cs }) := by
  have hf := h.active_finished
  obtain ⟨r, ds, p⟩ := m
  obtain rfl : ds = c :: cs := hc
  have hr : c.frame.finished = false := hf
  simp [Machine.step, Machine.finish, Machine.modifyActive, Machine.active, hr]

end Machine

namespace Turn
variable {u v w : Turn κ} {us vs : List (Turn κ)}

theorem Path.unique (path : Path u us v) (hv : v.Settled)
    (hr : ∀ b ∈ us, ∀ r ps, b.act ≠ .resolve r ps) (path' : Path u vs w) (hw : w.Settled) :
    vs = us ∧ w = v := by
  induction path generalizing vs with
  | refl => exact hv.path path'
  | @cons u x v us hn path ih =>
    cases path' with
    | refl => exact absurd hn hw.not_next
    | cons hn' path' =>
      obtain rfl := hn.unique hn' (hr u (List.mem_cons_self ..))
      obtain ⟨rfl, rfl⟩ := ih hv (fun b hb => hr b (List.mem_cons_of_mem _ hb)) path'
      exact ⟨rfl, rfl⟩

/-- The run is ended: its frames are finished one after the other and no user code runs before the
handler is told of an outcome with the errors. No other way is open. -/
def EndsWith (u : Turn κ) (es : List Json) : Prop :=
  ∃ us v o, Path u us v ∧ (∀ b ∈ us, ∃ w, b.act = .work .finish w) ∧
    v.act = .finished o (u.machine.root.sequence.handler o) ∧
    o.errors = es ∧ o.isSuccess = es.isEmpty ∧ v.machine.Over ∧ v.machine.root.errors = es ∧
    ∀ us' v', Path u us' v' → v'.Settled → us' = us ++ [v] ∧ v'.machine = v.machine

end Turn

namespace Machine
variable {m : Machine κ}

theorem Live.exists_finished (h : m.Live) (hp : m.parked = none) (ns : List Notice)
    (windingUp : Bool) :
    ∃ us v, Turn.Path ⟨m, ns, .work .finish windingUp⟩ us v ∧
      (∀ b ∈ us, ∃ w, b.act = .work .finish w) ∧
      v.act = .finished (.ofErrors m.gathered)
        (m.root.sequence.handler (.ofErrors m.gathered)) ∧
      v.machine.Over ∧ v.machine.root.errors = m.gathered := by
  induction hn : m.children.length generalizing m ns with
  | zero =>
    have hc : m.children = [] := List.length_eq_zero_iff.mp hn
    have hg : m.gathered = m.root.errors := by simp [gathered, hc]
    have ht : m.turn .finish windingUp = _ := turn_of_step (h.step_finish_root hc) rfl
    refine ⟨_, _, .cons .work (.refl _), List.forall_mem_singleton.mpr ⟨_, rfl⟩, ?_⟩
    rw [ht, hg]
    obtain ⟨r, cs, p⟩ := m
    obtain rfl : cs = [] := hc
    exact ⟨rfl, ⟨rfl, rfl, rfl, hp⟩, rfl⟩
  | succ n ih =>
    obtain ⟨c, cs, hc⟩ := List.exists_cons_of_length_eq_add_one hn
    have ht : m.turn .finish windingUp = _ := turn_of_step (h.step_finish_child hc) rfl
    -- The frame beneath has taken the errors over: what all frames hold is the same.
    have hlive := (h.leaveChild hc).recordErrors c.frame.errors
    obtain ⟨us, v, path, hus, hv, hover, he⟩ := ih hlive ((parked_recordErrors ..).trans hp)
      [.active (activeSequence { m with children := cs })] (by simp_all [Machine.recordErrors])
    rw [gathered_leaveChild hc] at hv he
    rw [root_sequence_recordErrors] at hv
    refine ⟨_, v, .cons .work (ht ▸ path), List.forall_mem_cons.mpr ⟨⟨_, rfl⟩, hus⟩, hv, hover, he⟩

theorem Live.endsWith (h : m.Live) (hp : m.parked = none) (ns : List Notice) (windingUp : Bool) :
    Turn.EndsWith ⟨m, ns, .work .finish windingUp⟩ m.gathered := by
  obtain ⟨us, v, path, hus, hv, hover, he⟩ := h.exists_finished hp ns windingUp
  refine ⟨us, v, _, path, hus, hv, Outcome.errors_ofErrors _, Outcome.isSuccess_ofErrors _, hover,
    he, fun us' v' path' hv' => ?_⟩
  have told : Turn.Next v ⟨v.machine, [], .settle⟩ := by
    obtain ⟨x, ns', a⟩ := v
    obtain rfl := hv
    exact .told
  have all := path.trans (.cons told (.refl _))
  have hr : ∀ b ∈ us ++ [v], ∀ r ps, b.act ≠ .resolve r ps := by
    intro b hb r ps ha
    rcases List.mem_append.mp hb with hb | hb
    · obtain ⟨w, hw⟩ := hus b hb
      exact absurd (hw.symm.trans ha) nofun
    · rw [List.mem_singleton.mp hb] at ha
      exact absurd (hv.symm.trans ha) nofun
  obtain ⟨rfl, rfl⟩ := all.unique ⟨rfl, hover.parked⟩ hr path' hv'
  exact ⟨rfl, rfl⟩

end Machine
end Sequencer
