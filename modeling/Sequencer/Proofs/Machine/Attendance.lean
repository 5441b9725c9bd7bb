import Sequencer.Proofs.Machine.Beneath
import Sequencer.Proofs.Machine.Endings
import Sequencer.Proofs.Structured.Performance

/-! How a loop is served. A loop that has been dispatched lies on the stack of its frame until its
control or its body leaves it, and nothing else in the frame changes in the meantime. The frame is
found again as it was when the loop was dispatched, but for the jump that an answer of the control
calls off. -/

namespace Sequencer
variable {κ : Type}

namespace Machine
variable {m : Machine κ}

/-- What the active frame of a machine has dispatched is still on the stack of that frame. -/
def Pends (m x : Machine κ) : Prop :=
  m.children.length ≤ x.children.length ∧
    m.active.stack.length < (x.frameAt m.children.length).stack.length

theorem not_pends_of_stack_nil {x : Machine κ} (hd : x.children.length ≤ m.children.length)
    (hs : x.active.stack = []) : ¬ m.Pends x := by
  rintro ⟨hle, hlt⟩
  have hx := x.frameAt_length
  rw [Nat.le_antisymm hd hle] at hx
  rw [hx, hs] at hlt
  exact absurd hlt (Nat.not_lt_zero _)

@[simp] theorem length_children_pushConstruct (m : Machine κ) (c : Construct κ) :
    (m.pushConstruct c).children.length = m.children.length := length_children_modifyActive ..

@[simp] theorem length_children_setJump (m : Machine κ) (j : Option String) :
    (m.setJump j).children.length = m.children.length := length_children_modifyActive ..

@[simp] theorem length_children_recordErrors (m : Machine κ) (es : List Json) :
    (m.recordErrors es).children.length = m.children.length := length_children_modifyActive ..

theorem setJump_setJump (m : Machine κ) (j j' : Option String) :
    (m.setJump j).setJump j' = m.setJump j' := modifyActive_modifyActive ..

theorem recordErrors_nil (m : Machine κ) : m.recordErrors [] = m :=
  modifyActive_of_eq (by simp [Frame.record])

theorem setStack_cons_pushConstruct (m : Machine κ) (c c' : Construct κ) :
    (m.pushConstruct c).setStack (c' :: m.active.stack) = m.pushConstruct c' := by
  rw [pushConstruct_eq, pushConstruct_eq, setStack_setStack]

theorem setStack_pushConstruct (m : Machine κ) (c : Construct κ) :
    (m.pushConstruct c).setStack m.active.stack = m := by
  rw [pushConstruct_eq, setStack_setStack, setStack_active]

theorem setStack_setJump_pushConstruct (m : Machine κ) (j : Option String) (c : Construct κ) :
    ((m.pushConstruct c).setJump j).setStack m.active.stack = m.setJump j := by
  obtain ⟨r, cs, p⟩ := m
  cases cs <;> rfl

theorem runBlock_pushConstruct (m : Machine κ) (st : LoopState κ) :
    (m.pushConstruct (.loop st)).runBlock =
      (m.pushConstruct (.loop { st with ran := true })).descend .loopBody st.loop.block := by
  simp only [runBlock, active_pushConstruct, setStack_cons_pushConstruct]

theorem repeatBody_pushConstruct (m : Machine κ) (st : LoopState κ) (es : List Json) :
    (m.pushConstruct (.loop st)).repeatBody es =
      (m.pushConstruct (.loop { st with errors := st.errors ++ es })).park .checkLoop := by
  simp only [repeatBody, active_pushConstruct, setStack_cons_pushConstruct]

theorem exitBody_pushConstruct (m : Machine κ) (st : LoopState κ) (es : List Json) :
    (m.pushConstruct (.loop st)).exitBody es =
      m.go (.exitLoop { st with errors := st.errors ++ es }) := by
  simp only [exitBody, active_pushConstruct, setStack_pushConstruct]

theorem step_yes_pushLoop (hf : m.active.finished = false) (st : LoopState κ) (p : String) :
    (m.pushConstruct (.loop st)).step (.proceed p) =
      (m.pushConstruct (.loop { st with ran := true })).descend .loopBody st.loop.block := by
  rw [← runBlock_pushConstruct]
  simp only [step, proceed, active_pushConstruct, hf, Bool.false_eq_true, if_false]

theorem step_no_pushLoop (hf : m.active.finished = false) (st : LoopState κ) :
    (m.pushConstruct (.loop st)).step .leave = (m.setJump none).go (.exitLoop st) := by
  simp only [step, leave, active_setJump, active_pushConstruct, hf, Bool.false_eq_true, if_false,
    setStack_setJump_pushConstruct]

theorem step_errors_pushLoop (hf : m.active.finished = false) (st : LoopState κ) (vs : List Json)
    (b : Bool) :
    (m.pushConstruct (.loop st)).step (.errors vs b) =
      (m.pushConstruct (.loop { st with errors := st.errors ++ vs })).go .leave := by
  simp only [step, emit, active_pushConstruct, hf, Bool.false_eq_true, if_false,
    setStack_cons_pushConstruct]

theorem checkLoop_pushLoop {st : LoopState κ} {c : MethodCall κ}
    (hc : st.loop.control = .method c) :
    (m.pushConstruct (.loop st)).checkLoop = (m.pushConstruct (.loop st)).invoke c := by
  rw [pushConstruct_eq, checkLoop_method hc]
  rfl

theorem goto_cases (m : Machine κ) (text : String) :
    (∃ f, m.goto text = m.raise f) ∨
    (∃ t, (t = .proceed "continue" ∨ t = .leave ∨ t = .finish) ∧ m.goto text = m.go t) ∨
    ∃ i, m.goto text = (m.modifyActive fun f =>
      { f with pendingJump := none, stack := [], cursor := i }).advance := by
  unfold goto
  split
  · exact .inl ⟨_, rfl⟩
  · split
    · exact .inl ⟨_, rfl⟩
    · split_ifs
      · exact .inr (.inl ⟨_, .inl rfl, rfl⟩)
      · exact .inr (.inl ⟨_, .inr (.inl rfl), rfl⟩)
      · exact .inr (.inl ⟨_, .inr (.inr rfl), rfl⟩)
      · split
        · exact .inl ⟨_, rfl⟩
        · exact .inr (.inr ⟨_, rfl⟩)

theorem advance_cases (m : Machine κ) :
    (∃ e, m.advance =
      (m.modifyActive fun f => { f with cursor := f.cursor + 1 }).go (.dispatch e none)) ∨
    m.advance = m.go .complete := by
  unfold advance
  split
  · exact .inl ⟨_, rfl⟩
  · exact .inr rfl

end Machine

namespace Turn

/-- What a turn leads to for as long as every turn after it has a property. -/
inductive Stays (P : Turn κ → Prop) (d : Turn κ) : Turn κ → Prop
  | enter {u : Turn κ} (hn : Next d u) (hu : P u) : Stays P d u
  | next {u v : Turn κ} (h : Stays P d u) (hn : Next u v) (hv : P v) : Stays P d v
  | receive {u : Turn κ} (h : Stays P d u) (idle : u.Idle) (s : Signal)
    (hv : P (u.machine.receive s)) : Stays P d (u.machine.receive s)

theorem Stays.occurs {P : Turn κ → Prop} {d u : Turn κ} (h : Stays P d u) (hd : d.Occurs) :
    u.Occurs := by
  induction h with
  | enter hn => exact hd.next hn
  | next _ hn _ ih => exact ih.next hn
  | receive _ idle s _ ih => exact ih.receive idle s

theorem Stays.holds {P : Turn κ → Prop} {d u : Turn κ} (h : Stays P d u) : P u := by
  cases h <;> assumption

/-- The loop that a turn dispatches is on the stack, and its frame has not been told to go on
without it. -/
def InLoop (d u : Turn κ) : Prop :=
  Stays (fun u => d.machine.Pends u.machine ∧
    (u.machine.children.length = d.machine.children.length → ∀ w, u.act ≠ .work .next w)) d u

/-- The loop that a turn dispatches is left, and it is to be routed. -/
structure Leaves (d u v : Turn κ) (st : LoopState κ) : Prop where
  inLoop : InLoop d u
  next : Next u v
  gone : ¬ d.machine.Pends v.machine
  routed : ∃ windingUp, v.act = .work (.exitLoop st) windingUp

end Turn

def Task.AnswersControl : Task κ → Prop
  | .proceed _ | .leave | .goto _ | .errors _ _ | .checkLoop => True
  | .next | .complete | .finish | .dispatch _ _ | .exitLoop _ => False

theorem Signal.task_cases (s : Signal) :
    (s.task : Task κ) = .next ∨ (s.task : Task κ) = .finish ∨ (s.task : Task κ).AnswersControl := by
  cases s with
  | next => exact .inl rfl
  | finish => exact .inr (.inl rfl)
  | proceed | leave | yes | no | goto | errors => exact .inr (.inr trivial)

namespace Turn

/-- The stages in which a loop is served by the machine that dispatched it. -/
inductive Serves (m : Machine κ) (l : Loop κ) : Turn κ → Prop
  | asked {st : LoopState κ} {ns : List Notice} {c : MethodCall κ} (hl : st.loop = l) :
    Serves m l ⟨m.pushConstruct (.loop st), ns, .call c⟩
  | waiting {st : LoopState κ} {ns : List Notice} (hl : st.loop = l) :
    Serves m l ⟨m.pushConstruct (.loop st), ns, .settle⟩
  | again (st : LoopState κ) {ns : List Notice} (hl : st.loop = l) :
    Serves m l ⟨{ m.pushConstruct (.loop st) with parked := some .checkLoop }, ns, .settle⟩
  | answered {st : LoopState κ} {ns : List Notice} {t : Task κ} {windingUp : Bool}
    (hl : st.loop = l) (ht : t.AnswersControl) :
    Serves m l ⟨m.pushConstruct (.loop st), ns, .work t windingUp⟩
  | body (st : LoopState κ) {u : Turn κ} (hl : st.loop = l)
    (h : (m.pushConstruct (.loop st)).Upon .loopBody u.machine) : Serves m l u

/-- A loop is left: by its control, which calls off the pending jump, or by its body. -/
inductive Quits (m : Machine κ) (l : Loop κ) (u v : Turn κ) : Prop
  | control {st : LoopState κ} {windingUp : Bool} (hl : st.loop = l)
    (hd : u.machine.children.length = m.children.length) (hm : v.machine = m.setJump none)
    (ha : v.act = .work (.exitLoop st) windingUp)
  | body (st : LoopState κ) {windingUp : Bool} (hl : st.loop = l)
    (hd : m.children.length < u.machine.children.length) (hm : v.machine = m)
    (ha : v.act = .work (.exitLoop st) windingUp)

inductive Served (m : Machine κ) (l : Loop κ) (u v : Turn κ) : Prop
  | still (h : Serves m l v)
  | quits (h : Quits m l u v)
  /-- The run is being ended. -/
  | ending {windingUp : Bool} (h : v.act = .work .finish windingUp)
  /-- The frame has gone to a label. -/
  | cleared (hd : v.machine.children.length = m.children.length)
    (hs : v.machine.active.stack = []) (ha : ∀ st w, v.act ≠ .work (.exitLoop st) w)

section
variable {m : Machine κ} {l : Loop κ} {st : LoopState κ} {u v : Turn κ}

theorem served_of_descend (st : LoopState κ) (hl : st.loop = l)
    (hm : v.machine =
      ((m.pushConstruct (.loop st)).descend .loopBody st.loop.block).machine) : Served m l u v := by
  refine .still (.body st hl ?_)
  rw [hm]
  exact Machine.upon_enter ..

theorem served_of_go (st : LoopState κ) (hl : st.loop = l) {t : Task κ} {windingUp : Bool}
    (ht : t.AnswersControl ∨ t = .finish) (hm : v.machine = m.pushConstruct (.loop st))
    (ha : some (Act.work t windingUp) = some v.act) : Served m l u v := by
  obtain ⟨x, ns, a⟩ := v
  obtain rfl := Option.some.inj ha
  obtain rfl : x = m.pushConstruct (.loop st) := hm
  rcases ht with ht | rfl
  · exact .still (.answered hl ht)
  · exact .ending rfl

theorem served_goto (hl : st.loop = l) {text : String} {windingUp : Bool}
    (hm : v.machine = ((m.pushConstruct (.loop st)).goto text).machine)
    (ha : ((m.pushConstruct (.loop st)).goto text).sequel.act? windingUp = some v.act) :
    Served m l u v := by
  rcases (m.pushConstruct (.loop st)).goto_cases text with ⟨f, he⟩ | ⟨t, ht, he⟩ | ⟨i, he⟩
  · rw [he] at ha
    cases ha
  · rw [he] at hm ha
    refine served_of_go st hl ?_ hm ha
    rcases ht with rfl | rfl | rfl
    · exact .inl trivial
    · exact .inl trivial
    · exact .inr rfl
  · rcases Machine.advance_cases ((m.pushConstruct (.loop st)).modifyActive
      fun f => { f with pendingJump := none, stack := [], cursor := i }) with ⟨e, hadv⟩ | hadv
    all_goals
      rw [he, hadv] at hm ha
      refine .cleared ?_ ?_ fun st' w hv => ?_
      · simp [hm, Machine.go]
      · simp [hm, Machine.go]
      · rw [hv] at ha
        cases ha

theorem served_checkLoop (st : LoopState κ) (hl : st.loop = l) {windingUp : Bool}
    (hm : v.machine = (m.pushConstruct (.loop st)).checkLoop.machine)
    (ha : (m.pushConstruct (.loop st)).checkLoop.sequel.act? windingUp = some v.act) :
    Served m l u v := by
  cases hc : st.loop.control with
  | always =>
    have hcheck :
        (m.pushConstruct (.loop st)).checkLoop = (m.pushConstruct (.loop st)).runBlock := by
      simp only [Machine.checkLoop, Machine.active_pushConstruct, hc]
    rw [hcheck, Machine.runBlock_pushConstruct] at hm
    exact served_of_descend { st with ran := true } hl hm
  | method c =>
    rw [Machine.checkLoop_pushLoop hc] at hm ha
    obtain ⟨x, ns, a⟩ := v
    obtain rfl := Option.some.inj ha
    obtain rfl : x = m.pushConstruct (.loop st) := hm
    exact .still (.asked hl)

theorem served_answered {ns : List Notice} {t : Task κ} {windingUp : Bool}
    (hu : Underway ⟨m.pushConstruct (.loop st), ns, .work t windingUp⟩) (hl : st.loop = l)
    (ht : t.AnswersControl) (hn : Next ⟨m.pushConstruct (.loop st), ns, .work t windingUp⟩ v) :
    Served m l ⟨m.pushConstruct (.loop st), ns, .work t windingUp⟩ v := by
  by_cases hf : ∃ w, v.act = .work .finish w
  · obtain ⟨w, hf⟩ := hf
    exact .ending hf
  obtain ⟨hm, ha⟩ := hn.move hu rfl fun w he => hf ⟨w, he⟩
  have hlive : m.active.finished = false := by
    have hlive := hu.1.active_finished
    rwa [Machine.active_pushConstruct] at hlive
  cases t with
  | proceed p =>
    rw [Machine.step_yes_pushLoop hlive] at hm
    exact served_of_descend { st with ran := true } hl hm
  | leave =>
    rw [Machine.step_no_pushLoop hlive] at hm ha
    exact .quits (.control hl (Machine.length_children_pushConstruct ..) hm
      (Option.some.inj ha).symm)
  | goto text => exact served_goto hl hm ha
  | errors vs b =>
    rw [Machine.step_errors_pushLoop hlive] at hm ha
    have hleave : Task.AnswersControl (.leave : Task κ) := trivial
    exact served_of_go { st with errors := st.errors ++ vs } hl (.inl hleave) hm ha
  | checkLoop => exact served_checkLoop st hl hm ha
  | next | complete | finish | dispatch | exitLoop => exact absurd ht not_false

theorem served_body (hp : m.parked = none) (hu : u.Underway) (hl : st.loop = l)
    (h : (m.pushConstruct (.loop st)).Upon .loopBody u.machine) (hn : Next u v) :
    Served m l u v := by
  have hp' : (m.pushConstruct (.loop st)).parked = none := by
    rw [Machine.parked_pushConstruct, hp]
  rcases hn.upon hu hp' h with hv | ⟨errors, t, w, mv, hua, htake, hm, ha⟩ | ⟨w, hf⟩
  · exact .still (.body st hl hv)
  · cases htake with
    | again p =>
      rw [Machine.repeatBody_pushConstruct] at hm ha
      obtain ⟨x, ns, a⟩ := v
      obtain rfl := Option.some.inj ha
      obtain rfl : x = _ := hm
      exact .still (.again { st with errors := st.errors ++ errors } hl)
    | exitBody ht =>
      rw [Machine.exitBody_pushConstruct] at hm ha
      refine .quits (.body { st with errors := st.errors ++ errors } hl ?_ hm
        (Option.some.inj ha).symm)
      rw [← Machine.length_children_pushConstruct m (.loop st)]
      exact h.length_lt
    | finish =>
      exact .ending (Option.some.inj ha).symm
  · exact .ending hf

theorem Serves.next (hp : m.parked = none) (h : Serves m l u) (hu : u.Underway)
    (hn : Next u v) : Served m l u v := by
  cases h with
  | asked hl =>
    cases hn
    exact .still (.waiting hl)
  | waiting =>
    obtain ⟨-, p, hp', -⟩ := hu
    rw [Machine.parked_pushConstruct, hp] at hp'
    exact absurd hp' nofun
  | again st hl =>
    cases hn with
    | unpark hp' =>
      obtain rfl := Option.some.inj hp'
      have hm : Machine.unpark { m.pushConstruct (.loop st) with parked := some .checkLoop } =
          m.pushConstruct (.loop st) :=
        Machine.withParked_eq ((Machine.parked_pushConstruct ..).trans hp)
      rw [hm]
      exact .still (.answered hl trivial)
  | answered hl ht => exact served_answered hu hl ht hn
  | body st hl hb => exact served_body hp hu hl hb hn

theorem Quits.not_pends (h : Quits m l u v) : ¬ m.Pends v.machine := by
  rintro ⟨-, hlt⟩
  have hat (x : Machine κ) (hx : x.children.length = m.children.length) :
      x.frameAt m.children.length = x.active := hx ▸ x.frameAt_length
  cases h with
  | control hl hd hm ha =>
    rw [hm, hat _ (Machine.length_children_setJump ..), Machine.active_setJump] at hlt
    exact absurd hlt (Nat.lt_irrefl _)
  | body st hl hd hm ha =>
    rw [hm, hat _ rfl] at hlt
    exact absurd hlt (Nat.lt_irrefl _)

theorem Serves.pends_of_exitLoop (h : Serves m l v) {st : LoopState κ} {w : Bool}
    (ha : v.act = .work (.exitLoop st) w) : m.Pends v.machine := by
  cases h with
  | asked | waiting | again => exact absurd ha nofun
  | answered hl ht =>
    obtain ⟨rfl, -⟩ := Act.work.inj ha
    exact absurd ht not_false
  | body st' hl hb =>
    have hlen := Machine.length_children_pushConstruct m (.loop st')
    have hat := hb.frameAt
    have hlt := hb.length_lt
    rw [hlen] at hat hlt
    refine ⟨hlt.le, ?_⟩
    rw [hat, Machine.active_pushConstruct]
    exact Nat.lt_succ_self _

/-- While the loop is on the stack it is served, unless the run is being ended. -/
theorem Served.of_pends (h : Served m l u v) (hv : m.Pends v.machine) :
    Serves m l v ∨ ∃ w, v.act = .work .finish w := by
  cases h with
  | still h => exact .inl h
  | quits h => exact absurd hv h.not_pends
  | ending h => exact .inr ⟨_, h⟩
  | cleared hd hs => exact absurd hv (Machine.not_pends_of_stack_nil hd.le hs)

end

section
variable {u v d : Turn κ} {l : Loop κ}

theorem Occurs.underway_of_task (h : u.Occurs) {t : Task κ} {windingUp : Bool}
    (ha : u.act = .work t windingUp) (ht : ∀ s : Signal, t ≠ s.task) : u.Underway := by
  rcases h.cases with hu | ⟨⟨hs, -⟩, -⟩ | ⟨-, s, hs⟩
  · exact hu
  · exact absurd (ha.symm.trans hs) nofun
  · exact absurd (Act.work.inj (ha.symm.trans hs)).1 (ht s)

theorem Occurs.underway_of_dispatch (h : u.Occurs) {e : Entry κ} {fallback : Option String}
    {windingUp : Bool} (ha : u.act = .work (.dispatch e fallback) windingUp) : u.Underway :=
  h.underway_of_task ha fun s => by cases s <;> exact nofun

theorem Occurs.underway_of_pends (h : u.Occurs) {m : Machine κ} (hp : m.Pends u.machine)
    (hn : Next u v) : u.Underway := by
  rcases h.cases with hu | ⟨hs, -⟩ | ⟨ho, -⟩
  · exact hu
  · exact absurd hn hs.not_next
  · obtain ⟨⟨r, cs, p⟩, ns, a⟩ := u
    obtain rfl : cs = [] := ho.children
    exact absurd hp (Machine.not_pends_of_stack_nil (Nat.zero_le _) ho.stack)

theorem Next.of_finish (hn : Next u v) (hu : u.Underway) {windingUp : Bool}
    (ha : u.act = .work .finish windingUp) :
    (∃ w, v.act = .work .finish w) ∨
      v.machine.children = [] ∧ v.machine.active.stack = [] ∧
        ∃ o handler, v.act = .finished o handler := by
  by_cases hf : ∃ w, v.act = .work .finish w
  · exact .inl hf
  obtain ⟨hm, hs⟩ := hn.move hu ha fun w he => hf ⟨w, he⟩
  obtain ⟨⟨r, cs, p⟩, ns, a⟩ := u
  obtain rfl : a = .work .finish windingUp := ha
  have hlive := hu.1.active_finished
  cases cs with
  | nil =>
    simp only [Machine.step, Machine.finish, hlive, Bool.false_eq_true, if_false,
      Machine.modifyActive] at hm hs
    rw [hm]
    exact .inr ⟨rfl, rfl, _, _, (Option.some.inj hs).symm⟩
  | cons c cs =>
    simp only [Machine.step, Machine.finish, hlive, Bool.false_eq_true, if_false,
      Machine.modifyActive] at hs
    exact .inl ⟨_, (Option.some.inj hs).symm⟩

theorem pends_setJump {m x : Machine κ} {j : Option String} :
    (m.setJump j).Pends x ↔ m.Pends x := by
  simp only [Machine.Pends, Machine.length_children_setJump, Machine.active_setJump]

theorem served_of_dispatch (hd : d.Occurs) {fallback : Option String} {windingUp : Bool}
    (ha : d.act = .work (.dispatch (.loop l) fallback) windingUp) (hn : Next d v) :
    Served (d.machine.setJump (l.jump.or fallback)) l d v := by
  have hu : d.Underway := hd.underway_of_dispatch ha
  by_cases hf : ∃ w, v.act = .work .finish w
  · obtain ⟨w, hf⟩ := hf
    exact .ending hf
  obtain ⟨hm, hs⟩ := hn.move hu ha fun w he => hf ⟨w, he⟩
  exact served_checkLoop { loop := l } rfl hm hs

theorem Underway.parked (hu : u.Underway) {t : Task κ} {windingUp : Bool}
    (ha : u.act = .work t windingUp) : u.machine.parked = none := by
  obtain ⟨m, ns, a⟩ := u
  obtain rfl : a = .work t windingUp := ha
  exact hu.2.1

theorem Underway.active_finished (hu : u.Underway) {t : Task κ} {windingUp : Bool}
    (ha : u.act = .work t windingUp) : u.machine.active.finished = false := by
  obtain ⟨m, ns, a⟩ := u
  obtain rfl : a = .work t windingUp := ha
  exact hu.1.active_finished

theorem served_receive {m : Machine κ} {st : LoopState κ} (hl : st.loop = l) {s : Signal}
    (hnext : (m.pushConstruct (.loop st)).children.length = m.children.length →
      ∀ w, ((m.pushConstruct (.loop st)).receive s).act ≠ .work .next w) :
    Serves m l ((m.pushConstruct (.loop st)).receive s) ∨
      ∃ w, ((m.pushConstruct (.loop st)).receive s).act = .work .finish w := by
  rcases s.task_cases (κ := κ) with ht | ht | ht
  · exact absurd (congrArg (Act.work · false) ht)
      (hnext (Machine.length_children_pushConstruct ..) false)
  · exact .inr ⟨false, congrArg (Act.work · false) ht⟩
  · exact .inl (.answered hl ht)

theorem InLoop.serves (hd : d.Occurs) {fallback : Option String} {windingUp : Bool}
    (ha : d.act = .work (.dispatch (.loop l) fallback) windingUp) (h : InLoop d u) :
    Serves (d.machine.setJump (l.jump.or fallback)) l u ∨ ∃ w, u.act = .work .finish w := by
  have hp : (d.machine.setJump (l.jump.or fallback)).parked = none := by
    rw [Machine.parked_setJump]
    exact (hd.underway_of_dispatch ha).parked ha
  induction h with
  | enter hn hv => exact (served_of_dispatch hd ha hn).of_pends (pends_setJump.mpr hv.1)
  | @next u v h hn hv ih =>
    have hu : u.Underway := (Stays.occurs h hd).underway_of_pends h.holds.1 hn
    rcases ih with hs | ⟨w, hw⟩
    · exact (hs.next hp hu hn).of_pends (pends_setJump.mpr hv.1)
    · rcases hn.of_finish hu hw with hf | ⟨hc, hs, -⟩
      · exact .inr hf
      · have hle : v.machine.children.length ≤ d.machine.children.length := by simp [hc]
        exact absurd hv.1 (Machine.not_pends_of_stack_nil hle hs)
  | @receive u h idle s hv ih =>
    rcases ih with hs | ⟨w, hw⟩
    · have hj := Machine.length_children_setJump d.machine (l.jump.or fallback)
      cases hs with
      | asked hl => exact served_receive hl fun hc => hv.2 (hc.trans hj)
      | waiting hl => exact served_receive hl fun hc => hv.2 (hc.trans hj)
      | again st hl => exact absurd idle nofun
      | answered => exact absurd idle not_false
      | body st hl hb => exact .inl (.body st hl hb)
    · obtain ⟨m, ns, a⟩ := u
      obtain rfl : a = .work .finish w := hw
      exact absurd idle not_false

theorem Leaves.quits (hd : d.Occurs) {fallback : Option String} {windingUp : Bool}
    (ha : d.act = .work (.dispatch (.loop l) fallback) windingUp) {st : LoopState κ}
    (h : d.Leaves u v st) : Quits (d.machine.setJump (l.jump.or fallback)) l u v := by
  obtain ⟨hin, hn, hl, w, hv⟩ := h
  have hp : (d.machine.setJump (l.jump.or fallback)).parked = none := by
    rw [Machine.parked_setJump]
    exact (hd.underway_of_dispatch ha).parked ha
  have hu : u.Underway := (Stays.occurs hin hd).underway_of_pends hin.holds.1 hn
  rcases hin.serves hd ha with hs | ⟨w', hw⟩
  · cases hs.next hp hu hn with
    | still hs => exact absurd (hs.pends_of_exitLoop hv) (mt pends_setJump.mp hl)
    | quits hq => exact hq
    | ending hf => exact absurd (hf.symm.trans hv) nofun
    | cleared _ _ hne => exact absurd hv (hne st w)
  · rcases hn.of_finish hu hw with ⟨w, hf⟩ | ⟨-, -, o, handler, hf⟩
    · exact absurd (hf.symm.trans hv) nofun
    · exact absurd (hf.symm.trans hv) nofun

/-- A loop that has been dispatched is left in one of two ways: by its control, with no jump
pending, or by its body. -/
theorem Leaves.cases (hd : d.Occurs) {fallback : Option String} {windingUp : Bool}
    (ha : d.act = .work (.dispatch (.loop l) fallback) windingUp) {st : LoopState κ}
    (h : d.Leaves u v st) :
    st.loop = l ∧
      (u.machine.children.length = d.machine.children.length ∧
          v.machine = d.machine.setJump none ∨
        d.machine.children.length < u.machine.children.length ∧
          v.machine = d.machine.setJump (l.jump.or fallback)) := by
  obtain ⟨w, hv⟩ := h.routed
  have hlen := Machine.length_children_setJump d.machine (l.jump.or fallback)
  cases h.quits hd ha with
  | control hl hu hm hv' =>
    obtain rfl := Task.exitLoop.inj (Act.work.inj (hv.symm.trans hv')).1
    exact ⟨hl, .inl ⟨hu.trans hlen, hm.trans (Machine.setJump_setJump ..)⟩⟩
  | body st' hl hu hm hv' =>
    obtain rfl := Task.exitLoop.inj (Act.work.inj (hv.symm.trans hv')).1
    exact ⟨hl, .inr ⟨hlen ▸ hu, hm⟩⟩

theorem Leaves.underway {st : LoopState κ} (h : d.Leaves u v st) (hd : d.Occurs) : v.Underway := by
  obtain ⟨w, hv⟩ := h.routed
  exact ((Stays.occurs h.inLoop hd).next h.next).underway_of_task hv
    fun s => by cases s <;> exact nofun

end
end Turn
end Sequencer
