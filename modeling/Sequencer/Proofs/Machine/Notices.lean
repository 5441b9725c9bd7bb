import Sequencer.Machine.Step

/-! What a move tells the context. A move that enters or leaves a sequence says which one is active
after it; any other move leaves the active sequence alone and says nothing. The only report is
of errors emitted once the run is over. -/

namespace Sequencer
variable {κ : Type}

/-- The move starts from the machine and says what the context needs to know of it. -/
def Move.Announces (mv : Move κ) (m : Machine κ) : Prop :=
  mv.notices = [] ∧ mv.machine.activeSequence = m.activeSequence ∨
    mv.notices = [.active mv.machine.activeSequence]

namespace Machine
variable {m : Machine κ}

theorem announces_go {m' : Machine κ} (h : m'.activeSequence = m.activeSequence) (t : Task κ) :
    (m'.go t).Announces m := .inl ⟨rfl, h⟩

theorem announces_advance {m' : Machine κ} (h : m'.activeSequence = m.activeSequence) :
    m'.advance.Announces m := by
  unfold advance
  split
  · refine announces_go ?_ _
    rw [activeSequence_modifyActive _ fun _ => by rfl, h]
  · exact announces_go h _

theorem announces_descend (m m' : Machine κ) (role : Role) (s : Sequence κ) :
    (m'.descend role s).Announces m := .inr rfl

theorem announces_runBlock (m : Machine κ) : m.runBlock.Announces m := by
  unfold runBlock
  split
  · exact announces_descend ..
  · exact .inl ⟨rfl, rfl⟩

theorem announces_branch {m' : Machine κ} (h : m'.activeSequence = m.activeSequence)
    (e : Option (Entry κ)) : (m'.branch e).Announces m := by
  cases e with
  | some e => exact announces_go h _
  | none => exact announces_go h _

theorem announces_resumeAfterLoop (m : Machine κ) (l : Loop κ) :
    (m.resumeAfterLoop l).Announces m := announces_go (activeSequence_setJump ..) _

theorem announces_exitBody (m m' : Machine κ) (es : List Json) :
    ((m'.exitBody es).noticing m'.activeSequence).Announces m := by
  right
  unfold exitBody
  split
  · exact congrArg (fun s => [Notice.active s]) (activeSequence_setStack ..).symm
  · rfl

theorem announces_repeatBody (m m' : Machine κ) (es : List Json) :
    ((m'.repeatBody es).noticing m'.activeSequence).Announces m := by
  right
  unfold repeatBody
  split
  · exact congrArg (fun s => [Notice.active s]) (activeSequence_setStack m' _).symm
  · rfl

theorem announces_emitOr (m m' : Machine κ) (es : List Json) (t : Task κ) :
    ((m'.emitOr es t).noticing m'.activeSequence).Announces m := .inr rfl

theorem announces_next (m : Machine κ) : m.next.Announces m := by
  unfold next
  split
  · exact .inl ⟨rfl, rfl⟩
  · split
    · exact .inl ⟨rfl, activeSequence_setJump ..⟩
    · exact announces_advance rfl

theorem announces_proceed (m : Machine κ) (primitive : String) :
    (m.proceed primitive).Announces m := by
  unfold proceed
  split
  · exact .inl ⟨rfl, rfl⟩
  · split
    · exact announces_runBlock m
    · exact announces_branch (activeSequence_setStack ..) _
    · split
      · exact .inl ⟨rfl, rfl⟩
      · dsimp only
        split
        · exact announces_repeatBody ..
        · exact .inr (congrArg (fun s => [Notice.active s]) (activeSequence_recordErrors ..).symm)

theorem announces_leave (m : Machine κ) : m.leave.Announces m := by
  have hj : (m.setJump none).activeSequence = m.activeSequence := activeSequence_setJump ..
  unfold leave
  split
  · exact .inl ⟨rfl, rfl⟩
  · dsimp only
    split
    · exact announces_branch ((activeSequence_setStack ..).trans hj) _
    · exact announces_go ((activeSequence_setStack ..).trans hj) _
    · split
      · exact announces_go hj _
      · split
        · exact announces_exitBody ..
        · exact announces_emitOr ..

theorem announces_complete (m : Machine κ) : m.complete.Announces m := by
  unfold complete
  split
  · exact announces_go rfl _
  · split
    · exact announces_go rfl _
    · dsimp only
      split
      · exact announces_exitBody ..
      · exact announces_emitOr ..

theorem announces_goto (m : Machine κ) (text : String) : (m.goto text).Announces m := by
  unfold goto
  split
  · exact .inl ⟨rfl, rfl⟩
  · split
    · exact .inl ⟨rfl, rfl⟩
    · repeat' split
      · exact announces_go rfl _
      · exact announces_go rfl _
      · exact announces_go rfl _
      · exact .inl ⟨rfl, rfl⟩
      · exact announces_advance (activeSequence_modifyActive _ fun _ => rfl)

theorem announces_emit (h : m.active.finished = false) (values : List Json) (breakOnEmit : Bool) :
    (m.emit values breakOnEmit).Announces m := by
  simp only [emit, h, Bool.false_eq_true, if_false]
  split
  · exact announces_go (activeSequence_setStack ..) _
  · exact announces_go (activeSequence_recordErrors ..) _

theorem announces_finish (m : Machine κ) : m.finish.Announces m := by
  unfold finish
  split
  · exact .inl ⟨rfl, rfl⟩
  · dsimp only
    split
    · exact .inl ⟨rfl, activeSequence_modifyActive _ fun _ => rfl⟩
    · exact .inr (congrArg (fun s => [Notice.active s]) (activeSequence_recordErrors ..).symm)

theorem announces_checkLoop {m' : Machine κ} (h : m'.activeSequence = m.activeSequence) :
    m'.checkLoop.Announces m := by
  unfold checkLoop
  split
  · split
    · exact (announces_runBlock m').imp (fun ha => ⟨ha.1, ha.2.trans h⟩) id
    · exact .inl ⟨rfl, h⟩
  · exact .inl ⟨rfl, h⟩

theorem announces_dispatch (m : Machine κ) (e : Entry κ) (fallback : Option String) :
    (m.dispatch e fallback).Announces m := by
  have hj : (m.setJump (e.jump.or fallback)).activeSequence = m.activeSequence :=
    activeSequence_setJump ..
  have hc (c : Construct κ) :
      ((m.setJump (e.jump.or fallback)).pushConstruct c).activeSequence = m.activeSequence :=
    (activeSequence_pushConstruct ..).trans hj
  unfold dispatch
  split
  · exact .inl ⟨rfl, hj⟩
  · exact .inl ⟨rfl, hc _⟩
  · exact announces_checkLoop (hc _)
  · exact .inl ⟨rfl, hj⟩
  · exact .inl ⟨rfl, hj⟩
  · exact announces_go hj _
  · exact .inl ⟨rfl, hj⟩
  · exact announces_descend ..

theorem announces_exitLoop (m : Machine κ) (st : LoopState κ) : (m.exitLoop st).Announces m := by
  unfold exitLoop
  repeat' split
  all_goals first | exact announces_go rfl _ | exact announces_resumeAfterLoop ..

theorem announces_step (h : m.active.finished = false) (t : Task κ) :
    (m.step t).Announces m := by
  cases t with
  | next => exact announces_next m
  | proceed primitive => exact announces_proceed m primitive
  | leave => exact announces_leave m
  | complete => exact announces_complete m
  | goto label => exact announces_goto m label
  | errors values breakOnEmit => exact announces_emit h values breakOnEmit
  | finish => exact announces_finish m
  | dispatch entry fallback => exact announces_dispatch m entry fallback
  | checkLoop => exact announces_checkLoop rfl
  | exitLoop state => exact announces_exitLoop m state

end Machine
end Sequencer
