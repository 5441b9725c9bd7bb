import Mathlib.Data.List.Chain
import Sequencer.Proofs.Machine.Progress
import Sequencer.Proofs.Program.Nesting

/-! Bounds. A construct is put on a stack only after the cursor has moved on, and only for an entry
of the frame's own sequence; a frame is entered only for a sequence that such an entry runs. So
the program alone says how large a machine can get, however long the run. -/

namespace Sequencer
variable {κ : Type}

def Construct.entry : Construct κ → Entry κ
  | .conditional c => .conditional c
  | .loop st => .loop st.loop

def Sequence.JumpsTo (s : Sequence κ) (label : String) : Prop := ∃ e, s.Has e ∧ e.jump = some label

structure Frame.Bounded (f : Frame κ) : Prop where
  stack : f.stack.length ≤ f.cursor
  cursor : f.sequence.Indexed → f.cursor ≤ f.sequence.entries.length
  occurs : ∀ x ∈ f.stack, f.sequence.Has x.entry
  jump : ∀ l, f.pendingJump = some l → f.sequence.JumpsTo l

/-- The entry is one of the frame's own, and there is room for it on the stack. -/
structure Frame.Hosts (f : Frame κ) (e : Entry κ) : Prop where
  has : f.sequence.Has e
  room : f.stack.length < f.cursor

/-- The entry that a task deals with is one of the active frame's own. -/
def Task.Stems (m : Machine κ) : Task κ → Prop
  | .dispatch e fallback => m.active.Hosts e ∧ ∀ l, fallback = some l → m.active.sequence.JumpsTo l
  | .exitLoop st => m.active.Hosts (.loop st.loop)
  | _ => True

theorem Signal.task_stems (s : Signal) (m : Machine κ) : s.task.Stems m := by
  cases s <;> trivial

theorem Parked.task_stems (p : Parked) (m : Machine κ) : p.task.Stems m := by
  cases p <;> trivial

namespace Machine

/-- Each frame stays within its sequence, which an entry of the frame below runs. -/
def Stacked (root : Frame κ) : List (Child κ) → Prop
  | [] => root.Bounded
  | c :: cs => c.frame.Bounded ∧
      (active { root, children := cs }).sequence.Nests c.frame.sequence ∧ Stacked root cs

def Bounded (m : Machine κ) : Prop := Stacked m.root m.children

theorem Stacked.root {r : Frame κ} {cs : List (Child κ)} (h : Stacked r cs) : r.Bounded := by
  induction cs with
  | nil => exact h
  | cons c cs ih => exact ih h.2.2

end Machine

def Move.Bounded (mv : Move κ) : Prop :=
  mv.machine.Bounded ∧ ∀ t, mv.sequel = .task t → t.Stems mv.machine

theorem Move.Bounded.noticing {mv : Move κ} (h : mv.Bounded) (a : ActiveSequence) :
    (mv.noticing a).Bounded := h

namespace Machine
variable {m : Machine κ}

theorem bounded_start (s : Sequence κ) : (start s).Bounded :=
  ⟨Nat.le_refl _, fun _ => Nat.zero_le _, List.forall_mem_nil _, nofun⟩

theorem Bounded.active (h : m.Bounded) : m.active.Bounded := by
  obtain ⟨r, cs, p⟩ := m
  cases cs with
  | nil => exact h
  | cons c cs => exact h.1

theorem Bounded.modifyActive (h : m.Bounded) {f : Frame κ → Frame κ}
    (hs : (f m.active).sequence = m.active.sequence) (hf : (f m.active).Bounded) :
    (m.modifyActive f).Bounded := by
  obtain ⟨r, cs, p⟩ := m
  cases cs with
  | nil => exact hf
  | cons c cs =>
    refine ⟨hf, ?_, h.2.2⟩
    rw [show (f c.frame).sequence = c.frame.sequence from hs]
    exact h.2.1

theorem Bounded.setStack (h : m.Bounded) {r : List (Construct κ)} (hr : r.length ≤ m.active.cursor)
    (ho : ∀ x ∈ r, m.active.sequence.Has x.entry) : (m.setStack r).Bounded :=
  h.modifyActive rfl ⟨hr, h.active.cursor, ho, h.active.jump⟩

theorem Bounded.setJump (h : m.Bounded) {j : Option String}
    (hj : ∀ l, j = some l → m.active.sequence.JumpsTo l) : (m.setJump j).Bounded :=
  h.modifyActive rfl ⟨h.active.stack, h.active.cursor, h.active.occurs, hj⟩

theorem Bounded.recordErrors (h : m.Bounded) (es : List Json) : (m.recordErrors es).Bounded :=
  h.modifyActive rfl ⟨h.active.stack, h.active.cursor, h.active.occurs, h.active.jump⟩

theorem Bounded.pop (h : m.Bounded) {x : Construct κ} {r : List (Construct κ)}
    (hst : m.active.stack = x :: r) :
    (m.setStack r).Bounded ∧ (m.setStack r).active.Hosts x.entry := by
  have hlen : r.length + 1 ≤ m.active.cursor := by
    have hs := h.active.stack
    rwa [hst] at hs
  have hocc := h.active.occurs
  rw [hst] at hocc
  refine ⟨h.setStack (Nat.le_of_succ_le hlen) fun y hy => hocc y (List.mem_cons_of_mem _ hy), ?_⟩
  rw [active_setStack]
  exact ⟨hocc x (List.mem_cons_self ..), hlen⟩

theorem Bounded.replaceTop (h : m.Bounded) {st : LoopState κ} {r : List (Construct κ)}
    (hst : m.active.stack = .loop st :: r) (st' : LoopState κ) (hl : st'.loop = st.loop) :
    (m.setStack (.loop st' :: r)).Bounded := by
  have hs := h.active.stack
  have hocc := h.active.occurs
  rw [hst] at hs hocc
  refine h.setStack hs fun y hy => ?_
  rcases List.mem_cons.mp hy with rfl | hy
  · have he : Construct.entry (.loop st') = .loop st.loop := congrArg Entry.loop hl
    rw [he]
    exact hocc _ (List.mem_cons_self ..)
  · exact hocc y (List.mem_cons_of_mem _ hy)

theorem Bounded.pushConstruct (h : m.Bounded) {x : Construct κ} (hx : m.active.Hosts x.entry) :
    (m.pushConstruct x).Bounded := by
  refine h.modifyActive rfl ⟨hx.room, h.active.cursor, fun y hy => ?_, h.active.jump⟩
  rcases List.mem_cons.mp hy with rfl | hy
  · exact hx.has
  · exact h.active.occurs y hy

theorem Bounded.enter (h : m.Bounded) {s : Sequence κ} (hs : m.active.sequence.Nests s)
    (role : Role) : (m.enter role s).Bounded :=
  ⟨⟨Nat.le_refl _, fun _ => Nat.zero_le _, List.forall_mem_nil _, nofun⟩, hs, h⟩

theorem Bounded.leaveChild (h : m.Bounded) {c : Child κ} {cs : List (Child κ)}
    (hc : m.children = c :: cs) : Bounded { m with children := cs } := by
  unfold Bounded at h
  rw [hc] at h
  exact h.2.2

theorem bounded_foldFault (h : m.Bounded) (f : Fault) : (m.foldFault f).Bounded := by
  have hr : m.root.Bounded := Stacked.root h
  exact ⟨hr.stack, hr.cursor, hr.occurs, hr.jump⟩

/-! ### Moves -/

theorem Bounded.go (h : m.Bounded) {t : Task κ} (ht : t.Stems m) : (m.go t).Bounded := by
  refine ⟨h, fun t' he => ?_⟩
  obtain rfl := Sequel.task.inj he
  exact ht

theorem Bounded.stop (h : m.Bounded) : m.stop.Bounded := ⟨h, nofun⟩

theorem Bounded.raise (h : m.Bounded) (f : Fault) : (m.raise f).Bounded := ⟨h, nofun⟩

theorem Bounded.invoke (h : m.Bounded) (c : MethodCall κ) : (m.invoke c).Bounded := ⟨h, nofun⟩

theorem Bounded.park (h : m.Bounded) (p : Parked) : (m.park p).Bounded := ⟨h, nofun⟩

theorem Bounded.advance (h : m.Bounded) (hst : m.active.stack.length ≤ m.active.cursor) :
    m.advance.Bounded := by
  unfold Machine.advance
  split
  next e he =>
    obtain ⟨hlt, rfl⟩ := List.getElem?_eq_some_iff.mp he
    refine Bounded.go ?_ ⟨?_, nofun⟩
    · exact h.modifyActive rfl ⟨Nat.le_succ_of_le hst, fun _ => hlt, h.active.occurs, h.active.jump⟩
    · rw [active_modifyActive]
      exact ⟨Sequence.has_of_mem (List.getElem_mem hlt), Nat.lt_succ_of_le hst⟩
  next => exact h.go trivial

theorem Bounded.descend (h : m.Bounded) {s : Sequence κ} (hs : m.active.sequence.Nests s)
    (role : Role) : (m.descend role s).Bounded :=
  ((h.enter hs role).go (t := .next) trivial).noticing _

theorem Bounded.runBlock (h : m.Bounded) : m.runBlock.Bounded := by
  unfold Machine.runBlock
  split
  next st r hst =>
    refine (h.replaceTop hst { st with ran := true } rfl).descend ?_ _
    rw [active_setStack]
    have hl := h.active.occurs
    rw [hst] at hl
    exact ⟨_, hl _ (List.mem_cons_self ..), .block st.loop⟩
  next => exact h.raise _

theorem Bounded.checkLoop (h : m.Bounded) : m.checkLoop.Bounded := by
  unfold Machine.checkLoop
  split
  · split
    · exact h.runBlock
    · exact h.invoke _
  · exact h.raise _

theorem Bounded.exitBody (h : m.Bounded) (es : List Json) : (m.exitBody es).Bounded := by
  unfold Machine.exitBody
  split
  next st r hst =>
    obtain ⟨hb, hx⟩ := h.pop hst
    exact hb.go hx
  next => exact h.raise _

theorem Bounded.repeatBody (h : m.Bounded) (es : List Json) : (m.repeatBody es).Bounded := by
  unfold Machine.repeatBody
  split
  next st r hst => exact (h.replaceTop hst { st with errors := st.errors ++ es } rfl).park _
  next => exact h.raise _

theorem Bounded.resumeAfterLoop (h : m.Bounded) {l : Loop κ}
    (hl : m.active.sequence.Has (.loop l)) : (m.resumeAfterLoop l).Bounded :=
  (h.setJump fun _ hj => ⟨_, hl, hj⟩).go trivial

theorem Bounded.branch (h : m.Bounded) {e : Option (Entry κ)}
    (he : ∀ r, e = some r → m.active.Hosts r) : (m.branch e).Bounded := by
  cases e with
  | none => exact h.go trivial
  | some e => exact h.go ⟨he e rfl, nofun⟩

theorem Bounded.emitOr (h : m.Bounded) (es : List Json) {t : Task κ} (ht : t.Stems m) :
    (m.emitOr es t).Bounded := by
  refine h.go ?_
  split
  · exact ht
  · trivial

theorem Bounded.next (h : m.Bounded) : m.next.Bounded := by
  unfold Machine.next
  split
  · exact h.raise _
  · split
    · exact (h.setJump (j := none) nofun).park _
    · exact h.advance h.active.stack

theorem Bounded.proceed (h : m.Bounded) (primitive : String) : (m.proceed primitive).Bounded := by
  unfold Machine.proceed
  split
  · exact h.raise _
  · split
    next => exact h.runBlock
    next c r hst =>
      obtain ⟨hb, hx⟩ := h.pop hst
      exact hb.branch fun e he => ⟨hx.has.offers (.whenTrue he), hx.room⟩
    next hst =>
      split
      next => exact h.raise _
      next c cs hc =>
        have hb := h.leaveChild hc
        dsimp only
        split
        · exact (hb.repeatBody _).noticing _
        · exact ((hb.recordErrors _).go (t := .proceed primitive) trivial).noticing _

theorem Bounded.endChild (h : m.Bounded) {c : Child κ} {cs : List (Child κ)}
    (hc : m.children = c :: cs) {t : Task κ} (ht : ∀ m : Machine κ, t.Stems m) :
    (let m : Machine κ := { m with children := cs }
    match c.role with
    | .loopBody => (m.exitBody c.frame.errors).noticing m.activeSequence
    | .nested => (m.emitOr c.frame.errors t).noticing m.activeSequence).Bounded := by
  have hb := h.leaveChild hc
  split
  · exact (hb.exitBody _).noticing _
  · exact (hb.emitOr _ (ht _)).noticing _

theorem Bounded.leave (h : m.Bounded) : m.leave.Bounded := by
  have hj := h.setJump (j := none) nofun
  unfold Machine.leave
  split
  · exact h.stop
  · dsimp only
    split
    next c r hst =>
      obtain ⟨hb, hx⟩ := hj.pop hst
      exact hb.branch fun e he => ⟨hx.has.offers (.whenFalse he), hx.room⟩
    next st r hst =>
      obtain ⟨hb, hx⟩ := hj.pop hst
      exact hb.go hx
    next hst =>
      split
      next => exact hj.go trivial
      next c cs hc => exact hj.endChild hc (t := .leave) fun _ => trivial

theorem Bounded.complete (h : m.Bounded) : m.complete.Bounded := by
  unfold Machine.complete
  split
  · exact h.go trivial
  · split
    next => exact h.go trivial
    next c cs hc => exact h.endChild hc (t := .next) fun _ => trivial

theorem Bounded.goto (h : m.Bounded) (text : String) : (m.goto text).Bounded := by
  unfold Machine.goto
  split
  · exact h.raise _
  · split
    · exact h.raise _
    · split_ifs
      · exact h.go trivial
      · exact h.go trivial
      · exact h.go trivial
      · split
        next => exact h.raise _
        next i hi =>
          -- The stack is given up together with the cursor.
          refine Bounded.advance ?_ ?_
          · exact h.modifyActive rfl
              ⟨Nat.zero_le _, fun hx => Nat.le_of_lt (hx.lt hi), List.forall_mem_nil _, nofun⟩
          · rw [active_modifyActive]
            exact Nat.zero_le _

theorem Bounded.emit (h : m.Bounded) (values : List Json) (breakOnEmit : Bool) :
    (m.emit values breakOnEmit).Bounded := by
  unfold Machine.emit
  split
  · exact ⟨h, nofun⟩
  · split
    next st r hst =>
      have htop := h.replaceTop hst { st with errors := st.errors ++ values } rfl
      exact htop.go (t := .leave) trivial
    next =>
      refine (h.recordErrors _).go ?_
      split <;> trivial

theorem Bounded.finish (h : m.Bounded) : m.finish.Bounded := by
  have hclear : (m.modifyActive fun f =>
      { f with finished := true, pendingJump := none, stack := [] }).Bounded :=
    h.modifyActive rfl ⟨Nat.zero_le _, h.active.cursor, List.forall_mem_nil _, nofun⟩
  unfold Machine.finish
  split
  · exact h.stop
  · dsimp only
    split
    next => exact ⟨hclear, nofun⟩
    next c cs hc =>
      exact (((hclear.leaveChild hc).recordErrors _).go (t := .finish) trivial).noticing _

theorem Bounded.dispatch (h : m.Bounded) {e : Entry κ} {fallback : Option String}
    (he : m.active.Hosts e) (hf : ∀ l, fallback = some l → m.active.sequence.JumpsTo l) :
    (m.dispatch e fallback).Bounded := by
  have hj : (m.setJump (e.jump.or fallback)).Bounded := by
    refine h.setJump fun l hl => ?_
    rcases Option.or_eq_some_iff.mp hl with hl | ⟨-, hl⟩
    · exact ⟨e, he.has, hl⟩
    · exact hf l hl
  have hx : (m.setJump (e.jump.or fallback)).active.Hosts e := by
    rw [active_setJump]
    exact ⟨he.has, he.room⟩
  unfold Machine.dispatch
  cases e with
  | method c => exact hj.invoke c
  | conditional c => exact (hj.pushConstruct (x := .conditional c) hx).invoke _
  | loop l => exact (hj.pushConstruct (x := .loop { loop := l }) hx).checkLoop
  | goto g =>
    obtain ⟨label, target, jump⟩ := g
    cases target with
    | label l => exact hj.park _
    | resolver r ps => exact ⟨hj, nofun⟩
  | error x =>
    obtain ⟨label, error, jump, breakOnEmit⟩ := x
    cases error with
    | message text => exact hj.go trivial
    | method c => exact hj.invoke c
  | sequence s => exact hj.descend ⟨_, hx.has, .nested s⟩ _

theorem Bounded.exitLoop (h : m.Bounded) {st : LoopState κ} (hl : m.active.Hosts (.loop st.loop)) :
    (m.exitLoop st).Bounded := by
  have hr : (m.resumeAfterLoop st.loop).Bounded := h.resumeAfterLoop hl.has
  -- A handler takes the place of its loop; the jump of the loop serves if it has none.
  have handled {e : Entry κ} (ho : (Entry.loop st.loop).Offers e) :
      (m.go (.dispatch e st.loop.jump)).Bounded :=
    h.go ⟨⟨hl.has.offers ho, hl.room⟩, fun _ hj => ⟨_, hl.has, hj⟩⟩
  unfold Machine.exitLoop
  split_ifs
  · exact hr
  · exact h.go trivial
  · split
    next e he => exact handled (.onSuccess he)
    next => exact hr
  · split
    next e he => exact handled (.onError he)
    next => exact hr
    next => exact h.go trivial

theorem Bounded.step (h : m.Bounded) {t : Task κ} (ht : t.Stems m) : (m.step t).Bounded := by
  cases t with
  | next => exact h.next
  | proceed primitive => exact h.proceed primitive
  | leave => exact h.leave
  | complete => exact h.complete
  | goto label => exact h.goto label
  | errors values breakOnEmit => exact h.emit values breakOnEmit
  | finish => exact h.finish
  | dispatch entry fallback => exact h.dispatch ht.1 ht.2
  | checkLoop => exact h.checkLoop
  | exitLoop state => exact h.exitLoop ht

end Machine

namespace Turn
variable {u v : Turn κ}

structure Bounded (u : Turn κ) : Prop where
  machine : u.machine.Bounded
  task : ∀ t windingUp, u.act = .work t windingUp → t.Stems u.machine

theorem bounded_turn {m : Machine κ} (h : m.Bounded) {t : Task κ} (ht : t.Stems m)
    (windingUp : Bool) : (m.turn t windingUp).Bounded := by
  obtain ⟨hm, hq⟩ := h.step ht
  rcases m.turn_cases t windingUp with ⟨a, ha, he⟩ | ⟨f, -, ⟨p, ns, -, he⟩ | ⟨ns, he⟩⟩ <;> rw [he]
  · refine ⟨hm, fun t' w' hw => hq t' ?_⟩
    obtain rfl : a = .work t' w' := hw
    exact Sequel.eq_task_of_act? ha
  · exact ⟨hm, nofun⟩
  · refine ⟨Machine.bounded_foldFault (m := { (m.step t).machine with parked := none }) hm f, ?_⟩
    intro t' w' hw
    obtain ⟨rfl, -⟩ := Act.work.inj hw
    trivial

theorem Next.bounded (hn : Next u v) (h : u.Bounded) : v.Bounded := by
  cases hn with
  | work => exact bounded_turn h.machine (h.task _ _ rfl) _
  | @unpark m ns p hp =>
    refine ⟨h.machine, fun t windingUp ha => ?_⟩
    obtain ⟨rfl, -⟩ := Act.work.inj ha
    exact p.task_stems _
  | called | told => exact ⟨h.machine, nofun⟩
  | resolved answer => exact ⟨h.machine, nofun⟩

theorem Occurs.bounded (h : u.Occurs) : u.Bounded := by
  induction h with
  | start s => exact ⟨Machine.bounded_start s, nofun⟩
  | receive _ _ s ih =>
    refine ⟨ih.machine, fun t windingUp ha => ?_⟩
    obtain ⟨rfl, -⟩ := Act.work.inj ha
    exact s.task_stems _
  | next _ hn ih => exact hn.bounded ih

end Turn

/-! ### What the program bounds -/

namespace Machine
variable {m : Machine κ}

def frames (m : Machine κ) : List (Frame κ) := m.children.map (·.frame) ++ [m.root]

theorem Stacked.encloses {r : Frame κ} {cs : List (Child κ)} (h : Stacked r cs) :
    r.sequence.Encloses (Machine.active { root := r, children := cs }).sequence := by
  induction cs with
  | nil => exact .refl
  | cons c cs ih => exact (ih h.2.2).tail h.2.1

/-- Each child takes up one of the levels of the root sequence. -/
theorem Stacked.length_add_height {r : Frame κ} {cs : List (Child κ)} (h : Stacked r cs) :
    cs.length + (Machine.active { root := r, children := cs }).sequence.height ≤
      r.sequence.height := by
  induction cs with
  | nil => exact Nat.le_of_eq (Nat.zero_add _)
  | cons c cs ih =>
    have hlt := h.2.1.height_lt
    have hle := ih h.2.2
    show cs.length + 1 + c.frame.sequence.height ≤ _
    omega

theorem Bounded.length_children_le (h : m.Bounded) :
    m.children.length ≤ m.root.sequence.height :=
  Nat.le_trans (Nat.le_add_right ..) (Stacked.length_add_height h)

theorem Stacked.frames {r : Frame κ} {cs : List (Child κ)} (h : Stacked r cs) :
    ∀ f ∈ (⟨r, cs, none⟩ : Machine κ).frames, f.Bounded ∧ r.sequence.Encloses f.sequence := by
  induction cs with
  | nil =>
    intro f hf
    obtain rfl := List.mem_singleton.mp hf
    exact ⟨h, .refl⟩
  | cons c cs ih =>
    intro f hf
    rcases List.mem_cons.mp hf with rfl | hf
    · exact ⟨h.1, h.encloses⟩
    · exact ih h.2.2 f hf

theorem Stacked.isChain {r : Frame κ} {cs : List (Child κ)} (h : Stacked r cs) :
    (⟨r, cs, none⟩ : Machine κ).frames.IsChain fun f g => g.sequence.Nests f.sequence := by
  induction cs with
  | nil => exact .singleton r
  | cons c cs ih =>
    cases cs with
    | nil => exact .cons_cons h.2.1 (.singleton r)
    | cons d cs => exact .cons_cons h.2.1 (ih h.2.2)

end Machine
end Sequencer
