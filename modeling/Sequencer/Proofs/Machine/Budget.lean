import Mathlib.Algebra.GroupWithZero.Nat
import Mathlib.Tactic.SplitIfs
import Sequencer.Proofs.Machine.Turns

/-! The budget of a machine. Entries still to be run, constructs that await an answer and the task
at hand all count by their size: an entry pays for its dispatch, a construct for its branches and
handlers, and a frame that is left for what follows. A loop that goes round again is paid for by
nothing, and so it is parked. -/

noncomputable section

namespace Sequencer
variable {κ : Type}

def Loop.handlers (l : Loop κ) : Nat := 4 * (sizeOf l.onSuccess + sizeOf l.onError)

namespace Construct

def load : Construct κ → Nat
  | .conditional c => 4 * sizeOf c
  | .loop st => st.loop.handlers + 5

/-- What one more iteration may come to. -/
def body : Construct κ → Nat
  | .conditional _ => 0
  | .loop st => 4 * sizeOf st.loop.block

end Construct

namespace Frame

def load (f : Frame κ) : Nat :=
  4 * sizeOf (f.sequence.entries.drop f.cursor) + (f.stack.map Construct.load).sum

def bodies (f : Frame κ) : Nat := (f.stack.map Construct.body).sum

end Frame

theorem sizeOf_drop_le (es : List (Entry κ)) (n : Nat) : sizeOf (es.drop n) ≤ sizeOf es := by
  induction es generalizing n with
  | nil => exact Nat.le_of_eq (congrArg sizeOf List.drop_nil)
  | cons e es ih =>
    cases n with
    | zero => exact Nat.le_refl _
    | succ n => exact Nat.le_trans (ih n) (by simp)

theorem four_le_load (f : Frame κ) : 4 ≤ f.load := by
  have hpos : 1 ≤ sizeOf (f.sequence.entries.drop f.cursor) := by
    cases f.sequence.entries.drop f.cursor with
    | nil => exact Nat.le_refl _
    | cons e es =>
      rw [List.cons.sizeOf_spec]
      omega
  have hload : f.load = 4 * sizeOf (f.sequence.entries.drop f.cursor) +
    (f.stack.map Construct.load).sum := rfl
  omega

namespace Machine

def total (weight : Frame κ → Nat) (m : Machine κ) : Nat :=
  weight m.root + (m.children.map fun c => weight c.frame).sum

def load (m : Machine κ) : Nat := m.total Frame.load

def bodies (m : Machine κ) : Nat := m.total Frame.bodies

section
variable {m : Machine κ} {weight : Frame κ → Nat}

theorem total_modifyActive (m : Machine κ) (weight : Frame κ → Nat) (f : Frame κ → Frame κ) :
    (m.modifyActive f).total weight + weight m.active = m.total weight + weight (f m.active) := by
  obtain ⟨r, cs, p⟩ := m
  cases cs with
  | nil =>
    simp only [total, modifyActive, active, List.map_nil, List.sum_nil]
    omega
  | cons c cs =>
    simp only [total, modifyActive, active, List.map_cons, List.sum_cons]
    omega

theorem total_modifyActive_of_eq {f : Frame κ → Frame κ}
    (h : weight (f m.active) = weight m.active) :
    (m.modifyActive f).total weight = m.total weight := by
  have ht := total_modifyActive m weight f
  omega

theorem total_enter (m : Machine κ) (weight : Frame κ → Nat) (role : Role) (s : Sequence κ) :
    (m.enter role s).total weight = m.total weight + weight { sequence := s } := by
  simp only [total, enter, List.map_cons, List.sum_cons]
  omega

theorem total_children {c : Child κ} {cs : List (Child κ)} (hc : m.children = c :: cs) :
    m.total weight = ({ m with children := cs } : Machine κ).total weight + weight c.frame := by
  simp only [total, hc, List.map_cons, List.sum_cons]
  omega

theorem le_total_active (m : Machine κ) (weight : Frame κ → Nat) :
    weight m.active ≤ m.total weight := by
  obtain ⟨r, cs, p⟩ := m
  cases cs with
  | nil => exact Nat.le_refl _
  | cons c cs =>
    simp only [total, active, List.map_cons, List.sum_cons]
    omega

@[simp] theorem load_setJump (m : Machine κ) (j : Option String) : (m.setJump j).load = m.load :=
  total_modifyActive_of_eq rfl

@[simp] theorem bodies_setJump (m : Machine κ) (j : Option String) :
    (m.setJump j).bodies = m.bodies := total_modifyActive_of_eq rfl

@[simp] theorem load_recordErrors (m : Machine κ) (es : List Json) :
    (m.recordErrors es).load = m.load := total_modifyActive_of_eq rfl

@[simp] theorem bodies_recordErrors (m : Machine κ) (es : List Json) :
    (m.recordErrors es).bodies = m.bodies := total_modifyActive_of_eq rfl

theorem load_pushConstruct (m : Machine κ) (x : Construct κ) :
    (m.pushConstruct x).load = m.load + x.load := by
  have ht := total_modifyActive m Frame.load fun f => { f with stack := x :: f.stack }
  simp only [Frame.load, List.map_cons, List.sum_cons] at ht
  show (m.pushConstruct x).total Frame.load = m.total Frame.load + x.load
  unfold pushConstruct
  omega

theorem load_pop {x : Construct κ} {r : List (Construct κ)} (hst : m.active.stack = x :: r) :
    (m.setStack r).load + x.load = m.load := by
  have ht := total_modifyActive m Frame.load fun f => { f with stack := r }
  simp only [Frame.load, hst, List.map_cons, List.sum_cons] at ht
  show (m.setStack r).total Frame.load + x.load = m.total Frame.load
  unfold setStack
  omega

theorem load_replaceTop {st : LoopState κ} {r : List (Construct κ)}
    (hst : m.active.stack = .loop st :: r) (st' : LoopState κ) (hl : st'.loop = st.loop) :
    (m.setStack (.loop st' :: r)).load = m.load := by
  refine total_modifyActive_of_eq ?_
  simp only [Frame.load, hst, List.map_cons, Construct.load, hl]

theorem load_leaveChild {c : Child κ} {cs : List (Child κ)} (hc : m.children = c :: cs) :
    ({ m with children := cs } : Machine κ).load + 4 ≤ m.load := by
  have ht : m.load = ({ m with children := cs } : Machine κ).load + c.frame.load :=
    total_children hc
  have hf := four_le_load c.frame
  omega

theorem bodies_leaveChild {c : Child κ} {cs : List (Child κ)} (hc : m.children = c :: cs) :
    ({ m with children := cs } : Machine κ).bodies ≤ m.bodies := by
  have ht : m.bodies = ({ m with children := cs } : Machine κ).bodies + c.frame.bodies :=
    total_children hc
  omega

theorem body_le_bodies {st : LoopState κ} {r : List (Construct κ)}
    (hst : m.active.stack = .loop st :: r) : 4 * sizeOf st.loop.block ≤ m.bodies := by
  have ha := le_total_active m Frame.bodies
  have hb : m.active.bodies = 4 * sizeOf st.loop.block + (r.map Construct.body).sum := by
    simp only [Frame.bodies, hst, List.map_cons, List.sum_cons, Construct.body]
  show _ ≤ m.total Frame.bodies
  omega

theorem load_foldFault (m : Machine κ) (f : Fault) : (m.foldFault f).load ≤ m.load := by
  show m.root.load + 0 ≤ m.root.load + _
  omega

end

end Machine

/-- What may follow the task before nothing is left to do. -/
def Task.cost (m : Machine κ) : Task κ → Nat
  | .finish => 0
  | .leave => 1
  | .complete => 2
  | .next => 3
  | .errors _ _ => 4
  | .dispatch e _ => 4 * sizeOf e
  | .exitLoop st => st.loop.handlers + 5
  | .checkLoop => m.bodies + 4
  | .proceed _ => m.bodies + 5
  | .goto _ => m.bodies + 4 * sizeOf m.active.sequence.entries + 6

def Sequel.cost (m : Machine κ) : Sequel κ → Nat
  | .task t => t.cost m + 1
  | .fault _ => 1
  | .settle | .call _ | .resolve _ _ | .finished _ _ => 0

def Move.Within (mv : Move κ) (budget : Nat) : Prop :=
  mv.machine.load + mv.sequel.cost mv.machine ≤ budget

theorem Move.Within.noticing {mv : Move κ} {n : Nat} (h : mv.Within n) (a : ActiveSequence) :
    (mv.noticing a).Within n := h

theorem Move.Within.mono {mv : Move κ} {n n' : Nat} (h : mv.Within n) (hn : n ≤ n') :
    mv.Within n' := Nat.le_trans h hn

namespace Machine
variable {m : Machine κ} {n : Nat}

theorem within_go {t : Task κ} (h : m.load + t.cost m < n) : (m.go t).Within n := h

theorem within_stop (h : m.load ≤ n) : m.stop.Within n := h

theorem within_raise (h : m.load < n) (f : Fault) : (m.raise f).Within n := h

theorem within_invoke (h : m.load ≤ n) (c : MethodCall κ) : (m.invoke c).Within n := h

theorem within_park (h : m.load ≤ n) (p : Parked) : (m.park p).Within n := h

theorem within_advance (m : Machine κ) : m.advance.Within (m.load + 3) := by
  unfold advance
  split
  next e he =>
    -- The entry that is run next has been counted among those to be run.
    obtain ⟨hlt, rfl⟩ := List.getElem?_eq_some_iff.mp he
    have hdrop := List.drop_eq_getElem_cons hlt
    have ht := total_modifyActive m Frame.load fun f => { f with cursor := f.cursor + 1 }
    simp only [Frame.load, hdrop, List.cons.sizeOf_spec] at ht
    refine within_go ?_
    show total Frame.load (m.modifyActive _) + 4 * sizeOf _ < m.total Frame.load + 3
    omega
  next => exact within_go (Nat.lt_succ_self _)

theorem within_descend {s : Sequence κ} {role : Role}
    (h : m.load + 4 * sizeOf s.entries + 3 < n) : (m.descend role s).Within n := by
  refine Move.Within.noticing (within_go ?_) _
  have ht : (m.enter role s).load = m.load + 4 * sizeOf s.entries := total_enter ..
  show (m.enter role s).load + 3 < n
  omega

theorem sizeOf_entries_lt (s : Sequence κ) : sizeOf s.entries < sizeOf s := by
  obtain ⟨name, entries, labels, breakOnError, registry, onSuccess, onError⟩ := s
  simp only [Sequence.mk.sizeOf_spec]
  omega

theorem within_runBlock {st : LoopState κ} {r : List (Construct κ)}
    (hst : m.active.stack = .loop st :: r) :
    m.runBlock.Within (m.load + 4 * sizeOf st.loop.block) := by
  simp only [runBlock, hst]
  have hl := load_replaceTop hst { st with ran := true } rfl
  have hs := sizeOf_entries_lt st.loop.block
  refine within_descend ?_
  omega

theorem within_check {st : LoopState κ} {r : List (Construct κ)}
    (hst : m.active.stack = .loop st :: r) :
    m.checkLoop.Within (m.load + 4 * sizeOf st.loop.block) := by
  simp only [checkLoop, hst]
  split
  · exact within_runBlock hst
  · exact within_invoke (Nat.le_add_right ..) _

theorem within_checkLoop (m : Machine κ) : m.checkLoop.Within (m.load + (m.bodies + 4)) := by
  by_cases hl : ∃ st r, m.active.stack = .loop st :: r
  · obtain ⟨st, r, hst⟩ := hl
    have hb := body_le_bodies hst
    exact (within_check hst).mono (by omega)
  · unfold checkLoop
    split
    next st r hst => exact absurd ⟨st, r, hst⟩ hl
    next => exact within_raise (by omega) _

theorem within_exitBody (m : Machine κ) (es : List Json) : (m.exitBody es).Within (m.load + 1) := by
  unfold exitBody
  split
  next st r hst =>
    refine within_go ?_
    have hl : (m.setStack r).load + (st.loop.handlers + 5) = m.load := load_pop hst
    show (m.setStack r).load + (st.loop.handlers + 5) < m.load + 1
    omega
  next => exact within_raise (Nat.lt_succ_self _) _

theorem within_repeatBody (m : Machine κ) (es : List Json) :
    (m.repeatBody es).Within (m.load + 1) := by
  unfold repeatBody
  split
  next st r hst =>
    have hl := load_replaceTop hst { st with errors := st.errors ++ es } rfl
    exact within_park (by omega) _
  next => exact within_raise (Nat.lt_succ_self _) _

theorem within_resumeAfterLoop (m : Machine κ) (l : Loop κ) :
    (m.resumeAfterLoop l).Within (m.load + 4) := by
  refine within_go ?_
  rw [load_setJump]
  exact Nat.lt_succ_self _

theorem within_branch (m : Machine κ) (e : Option (Entry κ)) :
    (m.branch e).Within (m.load + 4 * sizeOf e) := by
  cases e with
  | none => exact within_go (by simp only [Task.cost, Option.none.sizeOf_spec]; omega)
  | some e => exact within_go (by simp only [Task.cost, Option.some.sizeOf_spec]; omega)

theorem within_emitOr (m : Machine κ) (es : List Json) {t : Task κ} (ht : t.cost m ≤ 4) :
    (m.emitOr es t).Within (m.load + 5) := by
  refine within_go (Nat.add_lt_add_left ?_ _)
  split
  · exact Nat.lt_succ_of_le ht
  · exact Nat.lt_succ_self _

theorem within_next (m : Machine κ) : m.next.Within (m.load + 3) := by
  unfold next
  split
  · exact within_raise (by omega) _
  · split
    · exact within_park (by rw [load_setJump]; omega) _
    · exact within_advance m

theorem within_answer {c : Conditional κ} {r : List (Construct κ)} {e : Option (Entry κ)}
    (hst : m.active.stack = .conditional c :: r) (he : sizeOf e ≤ sizeOf c) :
    ((m.setStack r).branch e).Within m.load := by
  have hl : (m.setStack r).load + 4 * sizeOf c = m.load := load_pop hst
  exact (within_branch ..).mono (by omega)

theorem sizeOf_whenTrue_le (c : Conditional κ) : sizeOf c.whenTrue ≤ sizeOf c := by
  obtain ⟨label, condition, whenTrue, whenFalse⟩ := c
  simp only [Conditional.mk.sizeOf_spec]
  omega

theorem sizeOf_whenFalse_le (c : Conditional κ) : sizeOf c.whenFalse ≤ sizeOf c := by
  obtain ⟨label, condition, whenTrue, whenFalse⟩ := c
  simp only [Conditional.mk.sizeOf_spec]
  omega

theorem within_proceed (m : Machine κ) (primitive : String) :
    (m.proceed primitive).Within (m.load + (m.bodies + 5)) := by
  unfold proceed
  split
  · exact within_raise (by omega) _
  · split
    next st r hst =>
      have hb := body_le_bodies hst
      exact (within_runBlock hst).mono (by omega)
    next c r hst => exact (within_answer hst (sizeOf_whenTrue_le c)).mono (by omega)
    next hst =>
      split
      next => exact within_raise (by omega) _
      next c cs hc =>
        have hl := load_leaveChild hc
        have hb := bodies_leaveChild hc
        dsimp only
        split
        · exact ((within_repeatBody ..).mono (by omega)).noticing _
        · refine Move.Within.noticing (within_go ?_) _
          simp only [Task.cost, load_recordErrors, bodies_recordErrors]
          omega

theorem within_endChild {c : Child κ} {cs : List (Child κ)} (hc : m.children = c :: cs)
    {t : Task κ} (ht : ∀ m : Machine κ, t.cost m ≤ 4) :
    (let m : Machine κ := { m with children := cs }
    match c.role with
    | .loopBody => (m.exitBody c.frame.errors).noticing m.activeSequence
    | .nested => (m.emitOr c.frame.errors t).noticing m.activeSequence).Within (m.load + 1) := by
  have hl := load_leaveChild hc
  dsimp only
  split
  · exact ((within_exitBody ..).mono (by omega)).noticing _
  · exact ((within_emitOr _ _ (ht _)).mono (by omega)).noticing _

theorem within_leave (m : Machine κ) : m.leave.Within (m.load + 1) := by
  have hj : (m.setJump none).load = m.load := load_setJump ..
  unfold leave
  split
  · exact within_stop (Nat.le_succ _)
  · dsimp only
    split
    next c r hst => exact (within_answer hst (sizeOf_whenFalse_le c)).mono (by omega)
    next st r hst =>
      refine within_go ?_
      have hl : ((m.setJump none).setStack r).load + (st.loop.handlers + 5) = _ := load_pop hst
      show ((m.setJump none).setStack r).load + (st.loop.handlers + 5) < m.load + 1
      omega
    next hst =>
      split
      next => exact within_go (by rw [hj]; exact Nat.lt_succ_self _)
      next c cs hc =>
        have he := within_endChild hc (t := .leave) fun _ => Nat.le_add_left 1 3
        rwa [hj] at he

theorem within_complete (m : Machine κ) : m.complete.Within (m.load + 2) := by
  unfold complete
  split
  · exact within_go (Nat.lt_succ_self _)
  · split
    next => exact within_go (by show m.load + 0 < _; omega)
    next c cs hc =>
      exact (within_endChild hc (t := .next) fun _ => Nat.le_succ 3).mono (Nat.le_succ _)

theorem within_goto (m : Machine κ) (text : String) :
    (m.goto text).Within (m.load + (m.bodies + 4 * sizeOf m.active.sequence.entries + 6)) := by
  unfold goto
  split
  · exact within_raise (by omega) _
  · split
    · exact within_raise (by omega) _
    · split_ifs
      · exact within_go (by simp only [Task.cost]; omega)
      · exact within_go (by simp only [Task.cost]; omega)
      · exact within_go (by simp only [Task.cost]; omega)
      · split
        · exact within_raise (by omega) _
        next i _ =>
          -- The entries from the label on are to be run once more.
          have ht := total_modifyActive m Frame.load fun f =>
            { f with pendingJump := none, stack := [], cursor := i }
          simp only [Frame.load, List.map_nil, List.sum_nil, Nat.add_zero] at ht
          have hd := sizeOf_drop_le m.active.sequence.entries i
          refine (within_advance _).mono ?_
          show total Frame.load (m.modifyActive _) + 3 ≤ m.total Frame.load + _
          omega

theorem within_emit (m : Machine κ) (values : List Json) (breakOnEmit : Bool) :
    (m.emit values breakOnEmit).Within (m.load + 4) := by
  unfold emit
  split
  · show m.load + 0 ≤ _
    omega
  · split
    next st r hst =>
      have hl := load_replaceTop hst { st with errors := st.errors ++ values } rfl
      exact within_go (by simp only [Task.cost, hl]; omega)
    next =>
      refine within_go ?_
      rw [load_recordErrors]
      split <;> simp only [Task.cost] <;> omega

theorem within_finish (m : Machine κ) : m.finish.Within m.load := by
  have hclear : (m.modifyActive fun f =>
      { f with finished := true, pendingJump := none, stack := [] }).load ≤ m.load := by
    have ht := total_modifyActive m Frame.load fun f =>
      { f with finished := true, pendingJump := none, stack := [] }
    simp only [Frame.load, List.map_nil, List.sum_nil, Nat.add_zero] at ht
    show total Frame.load (m.modifyActive _) ≤ m.total Frame.load
    omega
  unfold finish
  split
  · exact within_stop (Nat.le_refl _)
  · dsimp only
    split
    next => exact hclear
    next c cs hc =>
      have hl := load_leaveChild hc
      refine Move.Within.noticing (within_go ?_) _
      rw [load_recordErrors]
      show _ + 0 < m.load
      omega

theorem within_dispatch (m : Machine κ) (e : Entry κ) (fallback : Option String) :
    (m.dispatch e fallback).Within (m.load + 4 * sizeOf e) := by
  have hj : (m.setJump (e.jump.or fallback)).load = m.load := load_setJump ..
  unfold dispatch
  cases e with
  | method c => exact within_invoke (by omega) c
  | conditional c =>
    refine within_invoke ?_ _
    rw [load_pushConstruct, hj, Construct.load, Entry.conditional.sizeOf_spec]
    omega
  | loop l =>
    -- The loop pays for its first iteration and for its handlers.
    have hst : ((m.setJump ((Entry.loop l).jump.or fallback)).pushConstruct
        (.loop { loop := l })).active.stack = .loop { loop := l } :: _ :=
      congrArg Frame.stack (active_pushConstruct ..)
    refine (within_check hst).mono ?_
    rw [load_pushConstruct, hj, Construct.load, Loop.handlers]
    obtain ⟨label, control, block, onSuccess, onError, jump⟩ := l
    simp only [Entry.loop.sizeOf_spec, Loop.mk.sizeOf_spec]
    omega
  | goto g =>
    obtain ⟨label, target, jump⟩ := g
    cases target with
    | label l => exact within_park (by omega) _
    | resolver r ps => exact Nat.le_trans (Nat.le_of_eq hj) (Nat.le_add_right ..)
  | error x =>
    obtain ⟨label, error, jump, breakOnEmit⟩ := x
    cases error with
    | message text =>
      refine within_go ?_
      simp only [Task.cost, hj, Entry.error.sizeOf_spec, ErrorEntry.mk.sizeOf_spec]
      omega
    | method c => exact within_invoke (by omega) c
  | sequence s =>
    refine within_descend ?_
    obtain ⟨label, s, jump⟩ := s
    have hs := sizeOf_entries_lt s
    simp only [hj, Entry.sequence.sizeOf_spec, SequenceEntry.mk.sizeOf_spec]
    omega

theorem within_exitLoop (m : Machine κ) (st : LoopState κ) :
    (m.exitLoop st).Within (m.load + (st.loop.handlers + 5)) := by
  have hr : (m.resumeAfterLoop st.loop).Within (m.load + (st.loop.handlers + 5)) :=
    (within_resumeAfterLoop ..).mono (by omega)
  have he : (m.go (.errors st.errors true)).Within (m.load + (st.loop.handlers + 5)) :=
    within_go (by simp only [Task.cost]; omega)
  unfold exitLoop
  split_ifs
  · exact hr
  · exact he
  · split
    next e hs =>
      refine within_go ?_
      simp only [Task.cost, Loop.handlers, hs, Option.some.sizeOf_spec]
      omega
    next => exact hr
  · split
    next e hs =>
      refine within_go ?_
      simp only [Task.cost, Loop.handlers, hs, Option.some.sizeOf_spec,
        LoopFailure.handler.sizeOf_spec]
      omega
    next => exact hr
    next => exact he

theorem within_step (m : Machine κ) (t : Task κ) : (m.step t).Within (m.load + t.cost m) := by
  cases t with
  | next => exact within_next m
  | proceed primitive => exact within_proceed m primitive
  | leave => exact within_leave m
  | complete => exact within_complete m
  | goto label => exact within_goto m label
  | errors values breakOnEmit => exact within_emit m values breakOnEmit
  | finish => exact within_finish m
  | dispatch entry fallback => exact within_dispatch m entry fallback
  | checkLoop => exact within_checkLoop m
  | exitLoop state => exact within_exitLoop m state

end Machine
end Sequencer

end
