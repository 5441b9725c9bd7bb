import Sequencer.Proofs.Machine.Progress

/-! What lies beneath the active frame. A machine works on its active frame alone: the frames below
stay as they are until the one right above them is left, and then the frame beneath takes over
what that one hands on. -/

namespace Sequencer
variable {κ : Type}

namespace Machine
variable {m x : Machine κ} {role : Role}

/-- Frames stand above those of another machine, the lowest of them in the role. -/
structure Upon (m : Machine κ) (role : Role) (x : Machine κ) : Prop where
  root : x.root = m.root
  children : ∃ cs f, x.children = cs ++ ⟨role, f⟩ :: m.children

theorem Upon.length_lt (h : m.Upon role x) : m.children.length < x.children.length := by
  obtain ⟨-, cs, f, hc⟩ := h
  simp only [hc, List.length_append, List.length_cons]
  omega

theorem Upon.withParked (h : m.Upon role x) (p : Option Parked) :
    m.Upon role { x with parked := p } := ⟨h.root, h.children⟩

theorem Upon.modifyActive (h : m.Upon role x) (f : Frame κ → Frame κ) :
    m.Upon role (x.modifyActive f) := by
  obtain ⟨r, cs, p⟩ := x
  obtain ⟨hr, ds, g, rfl⟩ := h
  cases ds with
  | nil => exact ⟨hr, [], f g, rfl⟩
  | cons d ds => exact ⟨hr, { d with frame := f d.frame } :: ds, g, rfl⟩

theorem Upon.setStack (h : m.Upon role x) (r : List (Construct κ)) : m.Upon role (x.setStack r) :=
  h.modifyActive _

theorem Upon.pushConstruct (h : m.Upon role x) (c : Construct κ) :
    m.Upon role (x.pushConstruct c) := h.modifyActive _

theorem Upon.setJump (h : m.Upon role x) (j : Option String) : m.Upon role (x.setJump j) :=
  h.modifyActive _

theorem Upon.recordErrors (h : m.Upon role x) (es : List Json) : m.Upon role (x.recordErrors es) :=
  h.modifyActive _

theorem Upon.enter (h : m.Upon role x) (role' : Role) (s : Sequence κ) :
    m.Upon role (x.enter role' s) := by
  obtain ⟨hr, ds, g, hc⟩ := h
  exact ⟨hr, ⟨role', { sequence := s }⟩ :: ds, g, congrArg (_ :: ·) hc⟩

theorem upon_enter (m : Machine κ) (role : Role) (s : Sequence κ) : m.Upon role (m.enter role s) :=
  ⟨rfl, [], _, rfl⟩

theorem Upon.leaveChild (h : m.Upon role x) {c : Child κ} {cs : List (Child κ)}
    (hc : x.children = c :: cs) :
    m.Upon role { x with children := cs } ∨
      c.role = role ∧ { x with children := cs } = { m with parked := x.parked } := by
  obtain ⟨hr, ds, g, hd⟩ := h
  rw [hc] at hd
  cases ds with
  | nil =>
    obtain ⟨rfl, rfl⟩ := List.cons.inj hd
    exact .inr ⟨rfl, by rw [hr]⟩
  | cons d ds =>
    obtain ⟨-, rfl⟩ := List.cons.inj hd
    exact .inl ⟨hr, ds, g, rfl⟩

/-- What a frame does with a task in the course of which the frame right above it has been left. -/
inductive TakesOver (m : Machine κ) (errors : List Json) : Role → Task κ → Move κ → Prop
  | again (primitive : String) :
    TakesOver m errors .loopBody (.proceed primitive) (m.repeatBody errors)
  | forward (primitive : String) :
    TakesOver m errors .nested (.proceed primitive)
      ((m.recordErrors errors).go (.proceed primitive))
  | exitBody {t : Task κ} (ht : t = .leave ∨ t = .complete) :
    TakesOver m errors .loopBody t (m.exitBody errors)
  | leave : TakesOver m errors .nested .leave (m.emitOr errors .leave)
  | complete : TakesOver m errors .nested .complete (m.emitOr errors .next)
  | finish (role : Role) : TakesOver m errors role .finish ((m.recordErrors errors).go .finish)

/-- The move leaves the lowest of the frames above, and the frame beneath takes over. -/
def Sheds (m : Machine κ) (role : Role) (x : Machine κ) (t : Task κ) (mv : Move κ) : Prop :=
  ∃ errors mv' s, TakesOver { m with parked := x.parked } errors role t mv' ∧ mv = mv'.noticing s

section
variable (h : m.Upon role x)
include h

theorem Upon.advance : m.Upon role x.advance.machine := by
  unfold Machine.advance
  split
  · exact h.modifyActive fun f => { f with cursor := f.cursor + 1 }
  · exact h

theorem Upon.runBlock : m.Upon role x.runBlock.machine := by
  unfold Machine.runBlock
  split
  · exact (h.setStack _).enter ..
  · exact h

theorem Upon.checkLoop : m.Upon role x.checkLoop.machine := by
  unfold Machine.checkLoop
  split
  · split
    · exact h.runBlock
    · exact h
  · exact h

theorem Upon.exitBody (es : List Json) : m.Upon role (x.exitBody es).machine := by
  unfold Machine.exitBody
  split
  · exact h.setStack _
  · exact h

theorem Upon.repeatBody (es : List Json) : m.Upon role (x.repeatBody es).machine := by
  unfold Machine.repeatBody
  split
  · exact (h.setStack _).withParked _
  · exact h

theorem Upon.branch (e : Option (Entry κ)) : m.Upon role (x.branch e).machine := by
  cases e <;> exact h

theorem Upon.next : m.Upon role x.next.machine := by
  unfold Machine.next
  split
  · exact h
  · split
    · exact (h.setJump _).withParked _
    · exact h.advance

theorem Upon.goto (text : String) : m.Upon role (x.goto text).machine := by
  unfold Machine.goto
  split
  · exact h
  · split
    · exact h
    · split_ifs
      · exact h
      · exact h
      · exact h
      · split
        · exact h
        · exact (h.modifyActive _).advance

theorem Upon.emit (values : List Json) (breakOnEmit : Bool) :
    m.Upon role (x.emit values breakOnEmit).machine := by
  unfold Machine.emit
  split
  · exact h
  · split
    · exact h.setStack _
    · exact h.recordErrors _

theorem Upon.dispatch (e : Entry κ) (fallback : Option String) :
    m.Upon role (x.dispatch e fallback).machine := by
  have hj : m.Upon role (x.setJump (e.jump.or fallback)) := h.setJump _
  unfold Machine.dispatch
  split
  · exact hj
  · exact hj.pushConstruct _
  · exact (hj.pushConstruct _).checkLoop
  · exact hj.withParked _
  · exact hj
  · exact hj
  · exact hj
  · exact hj.enter ..

theorem Upon.exitLoop (st : LoopState κ) : m.Upon role (x.exitLoop st).machine := by
  unfold Machine.exitLoop
  split_ifs
  · exact h.setJump _
  · exact h
  · split
    · exact h
    · exact h.setJump _
  · split
    · exact h
    · exact h.setJump _
    · exact h

theorem Upon.proceed (primitive : String) :
    m.Upon role (x.proceed primitive).machine ∨
      m.Sheds role x (.proceed primitive) (x.proceed primitive) := by
  unfold Machine.proceed
  split
  · exact .inl h
  · split
    · exact .inl h.runBlock
    · exact .inl ((h.setStack _).branch _)
    · split
      · exact .inl h
      next c cs hc =>
        dsimp only
        rcases h.leaveChild hc with h' | ⟨rfl, hm⟩
        · split
          · exact .inl (h'.repeatBody _)
          · exact .inl (h'.recordErrors _)
        · refine .inr ⟨c.frame.errors, ?_⟩
          rw [hm]
          split
          next hr => exact ⟨_, _, hr ▸ .again primitive, rfl⟩
          next hr => exact ⟨_, _, hr ▸ .forward primitive, rfl⟩

theorem Upon.leave : m.Upon role x.leave.machine ∨ m.Sheds role x .leave x.leave := by
  have hj : m.Upon role (x.setJump none) := h.setJump _
  unfold Machine.leave
  split
  · exact .inl h
  · dsimp only
    split
    · exact .inl ((hj.setStack _).branch _)
    · exact .inl (hj.setStack _)
    · split
      · exact .inl hj
      next c cs hc =>
        have hp : (x.setJump none).parked = x.parked := parked_setJump ..
        rcases hj.leaveChild hc with h' | ⟨rfl, hm⟩
        · split
          · exact .inl (h'.exitBody _)
          · exact .inl h'
        · refine .inr ⟨c.frame.errors, ?_⟩
          rw [hm, hp]
          split
          next hr => exact ⟨_, _, hr ▸ .exitBody (.inl rfl), rfl⟩
          next hr => exact ⟨_, _, hr ▸ .leave, rfl⟩

theorem Upon.complete : m.Upon role x.complete.machine ∨ m.Sheds role x .complete x.complete := by
  unfold Machine.complete
  split
  · exact .inl h
  · split
    · exact .inl h
    next c cs hc =>
      dsimp only
      rcases h.leaveChild hc with h' | ⟨rfl, hm⟩
      · split
        · exact .inl (h'.exitBody _)
        · exact .inl h'
      · refine .inr ⟨c.frame.errors, ?_⟩
        rw [hm]
        split
        next hr => exact ⟨_, _, hr ▸ .exitBody (.inr rfl), rfl⟩
        next hr => exact ⟨_, _, hr ▸ .complete, rfl⟩

theorem Upon.finish : m.Upon role x.finish.machine ∨ m.Sheds role x .finish x.finish := by
  unfold Machine.finish
  split
  · exact .inl h
  · have hf := h.modifyActive
      fun f => { f with finished := true, pendingJump := none, stack := [] }
    dsimp only
    split
    · exact .inl hf
    next c cs hc =>
      rcases hf.leaveChild hc with h' | ⟨rfl, hm⟩
      · exact .inl (h'.recordErrors _)
      · refine .inr ⟨c.frame.errors, ?_⟩
        rw [hm, parked_modifyActive]
        exact ⟨_, _, .finish _, rfl⟩

/-- A move keeps to the frames above, or it leaves the lowest of them. -/
theorem Upon.step (t : Task κ) :
    m.Upon role (x.step t).machine ∨ m.Sheds role x t (x.step t) := by
  cases t with
  | next => exact .inl h.next
  | proceed primitive => exact h.proceed primitive
  | leave => exact h.leave
  | complete => exact h.complete
  | goto l => exact .inl (h.goto l)
  | errors vs b => exact .inl (h.emit vs b)
  | finish => exact h.finish
  | dispatch e fallback => exact .inl (h.dispatch e fallback)
  | checkLoop => exact .inl h.checkLoop
  | exitLoop st => exact .inl (h.exitLoop st)

end

theorem withParked_eq {p : Option Parked} (h : m.parked = p) : { m with parked := p } = m := by
  rw [← h]

def frameAt (x : Machine κ) (depth : Nat) : Frame κ :=
  active { x with children := x.children.drop (x.children.length - depth) }

theorem frameAt_length (x : Machine κ) : x.frameAt x.children.length = x.active := by
  rw [frameAt, Nat.sub_self]
  rfl

theorem Upon.frameAt (h : m.Upon role x) : x.frameAt m.children.length = m.active := by
  obtain ⟨hr, cs, f, hc⟩ := h
  have happ : x.children = (cs ++ [⟨role, f⟩]) ++ m.children := by
    rw [hc, List.append_assoc]
    rfl
  have hd : x.children.drop (x.children.length - m.children.length) = m.children := by
    rw [happ, List.length_append, Nat.add_sub_cancel, List.drop_left]
  rw [Machine.frameAt, hd, hr]
  rfl

theorem turn_of_act? {t : Task κ} {windingUp : Bool} {a : Act κ}
    (h : (m.step t).sequel.act? windingUp = some a) :
    m.turn t windingUp = ⟨(m.step t).machine, (m.step t).notices, a⟩ := by
  rcases m.turn_cases t windingUp with ⟨b, hb, he⟩ | ⟨f, hf, -⟩
  · obtain rfl := Option.some.inj (h.symm.trans hb)
    exact he
  · rw [hf] at h
    exact absurd h nofun

theorem turn_of_step {t : Task κ} {mv : Move κ} (h : m.step t = mv) {windingUp : Bool} {a : Act κ}
    (ha : mv.sequel.act? windingUp = some a) :
    m.turn t windingUp = ⟨mv.machine, mv.notices, a⟩ := by
  subst h
  exact turn_of_act? ha

theorem turn_of_go {m' : Machine κ} {t t' : Task κ} (h : m.step t = m'.go t') (windingUp : Bool) :
    m.turn t windingUp = ⟨m', [], .work t' windingUp⟩ := by
  have hs : (m.step t).sequel.act? windingUp = some (.work t' windingUp) := by
    rw [h]
    rfl
  rw [turn_of_act? hs, h]
  rfl

end Machine

namespace Turn
variable {u v : Turn κ}

theorem Next.of_turn {t : Task κ} {windingUp : Bool} (ha : u.act = .work t windingUp)
    (h : u.machine.turn t windingUp = v) : Next u v := by
  obtain ⟨m, ns, b⟩ := u
  obtain rfl : b = .work t windingUp := ha
  exact h ▸ .work

theorem Next.of_parked {m : Machine κ} (hp : m.parked = none) (ns : List Notice) (p : Parked) :
    Next ⟨{ m with parked := some p }, ns, .settle⟩ ⟨m, [], .work p.task false⟩ := by
  have hn : Next ⟨{ m with parked := some p }, ns, .settle⟩ _ := .unpark rfl
  rwa [show Machine.unpark { m with parked := some p } = m from Machine.withParked_eq hp] at hn

theorem Next.eq_turn (hn : Next u v) {t : Task κ} {windingUp : Bool}
    (ha : u.act = .work t windingUp) : v = u.machine.turn t windingUp := by
  obtain ⟨m, ns, b⟩ := u
  obtain rfl : b = .work t windingUp := ha
  cases hn with
  | work => rfl

theorem Next.of_act? (hn : Next u v) {t : Task κ} {windingUp : Bool}
    (ha : u.act = .work t windingUp) {a : Act κ}
    (hs : (u.machine.step t).sequel.act? windingUp = some a) :
    v = ⟨(u.machine.step t).machine, (u.machine.step t).notices, a⟩ :=
  (hn.eq_turn ha).trans (Machine.turn_of_act? hs)

theorem Next.of_go (hn : Next u v) {m : Machine κ} {t t' : Task κ} {windingUp : Bool}
    (ha : u.act = .work t windingUp) (hs : u.machine.step t = m.go t') :
    v = ⟨m, [], .work t' windingUp⟩ :=
  (hn.eq_turn ha).trans (Machine.turn_of_go hs windingUp)

theorem Next.move (hn : Next u v) (hu : u.Underway) {t : Task κ} {windingUp : Bool}
    (ha : u.act = .work t windingUp) (hf : ∀ w, v.act ≠ .work .finish w) :
    v.machine = (u.machine.step t).machine ∧
      (u.machine.step t).sequel.act? windingUp = some v.act := by
  obtain ⟨m, ns, a⟩ := u
  obtain rfl : a = .work t windingUp := ha
  obtain ⟨hl, hp, ht, hw⟩ := hu
  cases hn with
  | work =>
    rcases hl.turn_cases hp ht hw with ⟨b, hb, he⟩ | ⟨f, -, he⟩
    · rw [he]
      exact ⟨rfl, hb⟩
    · exact absurd (congrArg Turn.act he) (hf true)

theorem Next.move_task (hn : Next u v) (hu : u.Underway) {t t' : Task κ} {w w' : Bool}
    (ha : u.act = .work t w) (hv : v.act = .work t' w') (hf : t' ≠ .finish) :
    v.machine = (u.machine.step t).machine ∧ (u.machine.step t).sequel = .task t' := by
  have hne (w'' : Bool) : v.act ≠ .work .finish w'' := by
    intro he
    exact hf (Act.work.inj (hv.symm.trans he)).1
  obtain ⟨hm, hs⟩ := hn.move hu ha hne
  exact ⟨hm, Sequel.eq_task_of_act? (hs.trans (congrArg some hv))⟩

theorem Next.underway_of_work (hn : Next u v) (hu : u.Underway) {t : Task κ} {w : Bool}
    (ha : u.act = .work t w) : v.Underway := by
  rcases hn.underway hu with hv | ⟨idle, -⟩
  · exact hv
  · obtain ⟨m, ns, a⟩ := u
    obtain rfl : a = .work t w := ha
    exact absurd idle not_false

/-- What follows keeps to the frames above those of a machine, or the lowest of them is left and the
frame beneath takes over, or the run is being ended. -/
theorem Next.upon (hn : Next u v) (hu : u.Underway) {m : Machine κ} (hp : m.parked = none)
    {role : Role} (h : m.Upon role u.machine) :
    m.Upon role v.machine ∨
    (∃ errors t w mv, u.act = .work t w ∧ m.TakesOver errors role t mv ∧ v.machine = mv.machine ∧
      mv.sequel.act? w = some v.act) ∨
    ∃ w, v.act = .work .finish w := by
  by_cases hf : ∃ w, v.act = .work .finish w
  · exact .inr (.inr hf)
  have hne (w : Bool) : v.act ≠ .work .finish w := fun he => hf ⟨w, he⟩
  cases hn with
  | @work x ns t w =>
    obtain ⟨hm, ha⟩ := Next.work.move hu rfl hne
    rcases h.step t with hs | ⟨errors, mv, s, htake, he⟩
    · exact .inl (hm ▸ hs)
    · rw [show x.parked = none from hu.2.1, Machine.withParked_eq hp] at htake
      rw [he] at hm ha
      exact .inr (.inl ⟨errors, t, w, mv, rfl, htake, hm, ha⟩)
  | unpark => exact .inl (h.withParked none)
  | called => exact .inl h
  | resolved answer => exact .inl (h.withParked _)
  | told => exact .inl h

end Turn
end Sequencer
