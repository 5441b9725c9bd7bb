import Sequencer.Proofs.Machine.Bounds
import Sequencer.Proofs.Machine.Budget
import Sequencer.Proofs.Machine.Endings

/-! Termination. Between two things that are parked only so much can be done; a run that goes on for
ever takes up parked tasks for ever. Where no entry jumps or goes to a label, all that can be
parked is the check of a loop that a signal repeats, and then there is nothing to park again. -/

namespace Sequencer
variable {κ : Type}

namespace Turn
variable {u v w : Turn κ} {us vs : List (Turn κ)}

/-- Nothing is left to do but what has been parked. -/
def resumes (u : Turn κ) : Bool :=
  match u.act with
  | .settle => u.machine.parked.isSome
  | _ => false

noncomputable def budget (u : Turn κ) : Nat :=
  match u.act with
  | .work t _ => u.machine.load + t.cost u.machine + 2
  | .call _ | .resolve _ _ | .finished _ _ => 1
  | .settle => 0

theorem budget_turn_lt (m : Machine κ) (ns : List Notice) (t : Task κ) (windingUp : Bool) :
    (m.turn t windingUp).budget < budget ⟨m, ns, .work t windingUp⟩ := by
  have hw : (m.step t).machine.load + (m.step t).sequel.cost (m.step t).machine ≤
    m.load + t.cost m := Machine.within_step m t
  show _ < m.load + t.cost m + 2
  rcases m.turn_cases t windingUp with ⟨a, ha, he⟩ | ⟨f, hf, ⟨p, ns', -, he⟩ | ⟨ns', he⟩⟩ <;>
    rw [he]
  · cases hq : (m.step t).sequel <;> rw [hq] at ha hw
    case fault => exact absurd ha nofun
    case task t' =>
      obtain rfl := Option.some.inj ha
      show (m.step t).machine.load + t'.cost (m.step t).machine + 2 < _
      simp only [Sequel.cost] at hw
      omega
    all_goals
      obtain rfl := Option.some.inj ha
      simp only [budget]
      omega
  · simp only [budget]
    omega
  · -- Only the root is left, and nothing has been added to it that counts.
    have hle : (Machine.foldFault { (m.step t).machine with parked := none } f).load ≤
      (m.step t).machine.load := Machine.load_foldFault ..
    rw [hf] at hw
    simp only [Sequel.cost] at hw
    show (Machine.foldFault { (m.step t).machine with parked := none } f).load + 0 + 2 < _
    omega

theorem Next.budget_lt (hn : Next u v) (hr : u.resumes = false) : v.budget < u.budget := by
  cases hn with
  | work => exact budget_turn_lt ..
  | unpark hp =>
    rw [resumes, hp] at hr
    exact absurd hr nofun
  | called | resolved | told => exact Nat.zero_lt_one

theorem Path.length_le_budget (path : Path u us v) (h : ∀ b ∈ us, b.resumes = false) :
    us.length + v.budget ≤ u.budget := by
  induction path with
  | refl => exact Nat.le_of_eq (Nat.zero_add _)
  | @cons u x v us hn path ih =>
    have hlt := hn.budget_lt (h u (List.mem_cons_self ..))
    have hle := ih fun b hb => h b (List.mem_cons_of_mem _ hb)
    rw [List.length_cons]
    omega

theorem settled_or_next (u : Turn κ) : u.Settled ∨ ∃ v, Next u v := by
  obtain ⟨m, ns, a⟩ := u
  cases a with
  | work => exact .inr ⟨_, .work⟩
  | call => exact .inr ⟨_, .called⟩
  | resolve => exact .inr ⟨_, .resolved ""⟩
  | finished => exact .inr ⟨_, .told⟩
  | settle =>
    cases hp : m.parked with
    | none => exact .inl ⟨rfl, hp⟩
    | some p => exact .inr ⟨_, .unpark hp⟩

theorem exists_settle (u : Turn κ) :
    ∃ us v, Path u us v ∧ (∀ b ∈ us, b.resumes = false) ∧ v.act = .settle := by
  induction hb : u.budget using Nat.strong_induction_on generalizing u with
  | _ n ih =>
    by_cases ha : u.act = .settle
    · exact ⟨[], u, .refl u, List.forall_mem_nil _, ha⟩
    · have hr : u.resumes = false := by
        unfold resumes
        split
        next hs => exact absurd hs ha
        next => rfl
      obtain ⟨v, hn⟩ := u.settled_or_next.resolve_left fun hs => ha hs.1
      obtain ⟨us, x, path, hus, hx⟩ := ih v.budget (hb ▸ hn.budget_lt hr) v rfl
      refine ⟨u :: us, x, .cons hn path, fun b hb => ?_, hx⟩
      rcases List.mem_cons.mp hb with rfl | hb
      · exact hr
      · exact hus b hb

/-- No run of turns goes on for ever without taking up something parked again and again. -/
theorem exists_resumes {f : Nat → Turn κ} (hf : ∀ i, Next (f i) (f (i + 1))) (n : Nat) :
    ∃ i, n ≤ i ∧ (f i).resumes = true := by
  induction hb : (f n).budget using Nat.strong_induction_on generalizing n with
  | _ k ih =>
    cases hr : (f n).resumes with
    | true => exact ⟨n, Nat.le_refl n, hr⟩
    | false =>
      obtain ⟨i, hi, hres⟩ := ih _ (hb ▸ (hf n).budget_lt hr) (n + 1) rfl
      exact ⟨i, Nat.le_of_succ_le hi, hres⟩

theorem Next.unique (h : Next u v) (h' : Next u w) (hr : ∀ r ps, u.act ≠ .resolve r ps) :
    v = w := by
  cases h with
  | work => cases h' with | work => rfl
  | called => cases h' with | called => rfl
  | told => cases h' with | told => rfl
  | resolved => exact absurd rfl (hr _ _)
  | unpark hp =>
    cases h' with
    | unpark hp' =>
      obtain rfl := Option.some.inj (hp.symm.trans hp')
      rfl

theorem Path.isPrefix (path : Path u us v) (hv : v.Settled)
    (hr : ∀ b ∈ us, ∀ r ps, b.act ≠ .resolve r ps) (path' : Path u vs w) : vs <+: us := by
  induction path generalizing vs with
  | refl =>
    obtain ⟨rfl, -⟩ := hv.path path'
    exact List.prefix_rfl
  | @cons u x v us hn path ih =>
    cases path' with
    | refl => exact List.nil_prefix
    | cons hn' path' =>
      obtain rfl := hn.unique hn' (hr u (List.mem_cons_self ..))
      exact List.cons_prefix_cons.mpr
        ⟨rfl, ih hv (fun b hb => hr b (List.mem_cons_of_mem _ hb)) path'⟩

end Turn

/-! ### Straight sequences -/

def Sequence.Plain (s : Sequence κ) : Prop := ∀ e, s.Has e → e.jump = none ∧ ∀ g, e ≠ .goto g

/-- No entry anywhere in the tree jumps or goes to a label. -/
def Sequence.Straight (s : Sequence κ) : Prop := s.Throughout Sequence.Plain

def Task.Forward : Task κ → Prop
  | .proceed _ | .goto _ => False
  | _ => True

structure Move.Forward (mv : Move κ) (p : Option Parked) : Prop where
  parked : mv.machine.parked = p
  task : ∀ t, mv.sequel = .task t → t.Forward
  resolve : ∀ r ps, mv.sequel ≠ .resolve r ps

def Move.Circling (mv : Move κ) (p : Option Parked) : Prop :=
  mv.machine.parked = p ∧ (∀ r ps, mv.sequel ≠ .resolve r ps) ∨
    mv.machine.parked = some .checkLoop ∧ mv.sequel = .settle

theorem Move.Forward.circling {mv : Move κ} {p : Option Parked} (h : mv.Forward p) :
    mv.Circling p := .inl ⟨h.parked, h.resolve⟩

theorem Move.Forward.noticing {mv : Move κ} {p : Option Parked} (h : mv.Forward p)
    (a : ActiveSequence) : (mv.noticing a).Forward p := ⟨h.parked, h.task, h.resolve⟩

namespace Machine
variable {m : Machine κ} {p : Option Parked}

section
variable (hp : m.parked = p)
include hp

theorem forward_go {t : Task κ} (ht : t.Forward) : (m.go t).Forward p := by
  refine ⟨hp, fun t' he => ?_, nofun⟩
  obtain rfl := Sequel.task.inj he
  exact ht

theorem forward_stop : m.stop.Forward p := ⟨hp, nofun, nofun⟩

theorem forward_raise (f : Fault) : (m.raise f).Forward p := ⟨hp, nofun, nofun⟩

theorem forward_invoke (c : MethodCall κ) : (m.invoke c).Forward p := ⟨hp, nofun, nofun⟩

theorem forward_advance : m.advance.Forward p := by
  unfold advance
  split
  · exact forward_go ((parked_modifyActive ..).trans hp) (t := .dispatch _ _) trivial
  · exact forward_go hp (t := .complete) trivial

theorem forward_descend (role : Role) (s : Sequence κ) : (m.descend role s).Forward p :=
  (forward_go (m := m.enter role s) hp (t := .next) trivial).noticing _

theorem forward_runBlock : m.runBlock.Forward p := by
  unfold runBlock
  split
  · exact forward_descend ((parked_setStack ..).trans hp) ..
  · exact forward_raise hp _

theorem forward_checkLoop : m.checkLoop.Forward p := by
  unfold checkLoop
  split
  · split
    · exact forward_runBlock hp
    · exact forward_invoke hp _
  · exact forward_raise hp _

theorem forward_exitBody (es : List Json) : (m.exitBody es).Forward p := by
  unfold exitBody
  split
  · exact forward_go ((parked_setStack ..).trans hp) (t := .exitLoop _) trivial
  · exact forward_raise hp _

theorem forward_branch (e : Option (Entry κ)) : (m.branch e).Forward p := by
  cases e with
  | some e => exact forward_go hp (t := .dispatch _ _) trivial
  | none => exact forward_go hp (t := .next) trivial

theorem forward_resumeAfterLoop (l : Loop κ) : (m.resumeAfterLoop l).Forward p :=
  forward_go ((parked_setJump ..).trans hp) (t := .next) trivial

theorem forward_endChild (c : Child κ) (cs : List (Child κ)) {t : Task κ} (ht : t.Forward) :
    (let m : Machine κ := { m with children := cs }
    match c.role with
    | .loopBody => (m.exitBody c.frame.errors).noticing m.activeSequence
    | .nested => (m.emitOr c.frame.errors t).noticing m.activeSequence).Forward p := by
  split
  · exact (forward_exitBody (m := { m with children := cs }) hp _).noticing _
  · refine ⟨hp, fun t' he => ?_, nofun⟩
    obtain rfl := Sequel.task.inj he
    split
    · exact ht
    · trivial

theorem forward_next (hj : m.active.pendingJump = none) : m.next.Forward p := by
  unfold next
  split
  · exact forward_raise hp _
  · rw [hj]
    exact forward_advance hp

theorem forward_leave : m.leave.Forward p := by
  have hpj : (m.setJump none).parked = p := (parked_setJump ..).trans hp
  unfold leave
  split
  · exact forward_stop hp
  · dsimp only
    split
    · exact forward_branch ((parked_setStack ..).trans hpj) _
    · exact forward_go ((parked_setStack ..).trans hpj) (t := .exitLoop _) trivial
    · split
      · exact forward_go hpj (t := .finish) trivial
      · exact forward_endChild hpj _ _ (t := .leave) trivial

theorem forward_complete : m.complete.Forward p := by
  unfold complete
  split
  · exact forward_go hp (t := .leave) trivial
  · split
    · exact forward_go hp (t := .finish) trivial
    · exact forward_endChild hp _ _ (t := .next) trivial

theorem forward_emit (values : List Json) (breakOnEmit : Bool) :
    (m.emit values breakOnEmit).Forward p := by
  unfold emit
  split
  · exact ⟨hp, nofun, nofun⟩
  · split
    · exact forward_go ((parked_setStack ..).trans hp) (t := .leave) trivial
    · refine forward_go ((parked_recordErrors ..).trans hp) ?_
      split <;> trivial

theorem forward_finish : m.finish.Forward p := by
  have hclear (f : Frame κ → Frame κ) : (m.modifyActive f).parked = p :=
    (parked_modifyActive ..).trans hp
  unfold finish
  split
  · exact forward_stop hp
  · dsimp only
    split
    · exact ⟨hclear _, nofun, nofun⟩
    · refine (forward_go (Eq.trans (parked_recordErrors ..) ?_) (t := .finish) trivial).noticing _
      exact hclear _

theorem forward_dispatch {e : Entry κ} (he : ∀ g, e ≠ .goto g) (fallback : Option String) :
    (m.dispatch e fallback).Forward p := by
  have hpj : (m.setJump (e.jump.or fallback)).parked = p := (parked_setJump ..).trans hp
  unfold dispatch
  cases e with
  | method c => exact forward_invoke hpj c
  | conditional c => exact forward_invoke ((parked_pushConstruct ..).trans hpj) _
  | loop l => exact forward_checkLoop ((parked_pushConstruct ..).trans hpj)
  | goto g => exact absurd rfl (he g)
  | error x =>
    obtain ⟨label, error, jump, breakOnEmit⟩ := x
    cases error with
    | message text => exact forward_go hpj (t := .errors _ _) trivial
    | method c => exact forward_invoke hpj c
  | sequence s => exact forward_descend hpj ..

theorem forward_exitLoop (st : LoopState κ) : (m.exitLoop st).Forward p := by
  have hr : (m.resumeAfterLoop st.loop).Forward p := forward_resumeAfterLoop hp _
  unfold exitLoop
  repeat' split
  all_goals first | exact hr | exact forward_go hp trivial

theorem circling_proceed (primitive : String) : (m.proceed primitive).Circling p := by
  unfold proceed
  split
  · exact (forward_raise hp _).circling
  · split
    · exact (forward_runBlock hp).circling
    · exact (forward_branch ((parked_setStack ..).trans hp) _).circling
    · split
      · exact (forward_raise hp _).circling
      next c cs hc =>
        dsimp only
        split
        · unfold repeatBody
          split
          · exact .inr ⟨rfl, rfl⟩
          · exact .inl ⟨hp, nofun⟩
        · exact .inl ⟨(parked_recordErrors ..).trans hp, nofun⟩

theorem circling_goto (text : String) : (m.goto text).Circling p := by
  unfold goto
  split
  · exact (forward_raise hp _).circling
  · split
    · exact (forward_raise hp _).circling
    · split_ifs
      · exact .inl ⟨hp, nofun⟩
      · exact .inl ⟨hp, nofun⟩
      · exact .inl ⟨hp, nofun⟩
      · split
        · exact (forward_raise hp _).circling
        · exact (forward_advance ((parked_modifyActive ..).trans hp)).circling

end

theorem Bounded.pendingJump (h : m.Bounded) (hs : m.active.sequence.Plain) :
    m.active.pendingJump = none := by
  cases hj : m.active.pendingJump with
  | none => rfl
  | some l =>
    obtain ⟨e, he, hl⟩ := h.active.jump l hj
    exact absurd ((hs e he).1.symm.trans hl) nofun

theorem forward_step (h : m.Bounded) (hs : m.active.sequence.Plain) (hp : m.parked = p)
    {t : Task κ} (ht : t.Stems m) (hf : t.Forward) : (m.step t).Forward p := by
  cases t with
  | next => exact forward_next hp (h.pendingJump hs)
  | proceed primitive => exact absurd hf not_false
  | leave => exact forward_leave hp
  | complete => exact forward_complete hp
  | goto label => exact absurd hf not_false
  | errors values breakOnEmit => exact forward_emit hp values breakOnEmit
  | finish => exact forward_finish hp
  | dispatch entry fallback => exact forward_dispatch hp (hs entry ht.1.has).2 fallback
  | checkLoop => exact forward_checkLoop hp
  | exitLoop state => exact forward_exitLoop hp state

theorem circling_step (h : m.Bounded) (hs : m.active.sequence.Plain) (hp : m.parked = p)
    {t : Task κ} (ht : t.Stems m) : (m.step t).Circling p := by
  cases t with
  | proceed primitive => exact circling_proceed hp primitive
  | goto label => exact circling_goto hp label
  | _ => exact (forward_step h hs hp ht trivial).circling

end Machine

namespace Turn
variable {u v : Turn κ} {us : List (Turn κ)}

structure OnStraight (u : Turn κ) : Prop where
  bounded : u.Bounded
  straight : u.machine.root.sequence.Straight

theorem OnStraight.plain (h : u.OnStraight) : u.machine.active.sequence.Plain :=
  h.straight _ (Machine.Stacked.encloses h.bounded.machine)

/-- Nothing is parked, and nothing will be. -/
def Forward (u : Turn κ) : Prop :=
  u.machine.parked = none ∧ match u.act with
    | .work t _ => t.Forward
    | .resolve _ _ => False
    | .settle | .call _ | .finished _ _ => True

/-- Nothing is parked but the check of a loop. -/
def Circling (u : Turn κ) : Prop :=
  match u.act with
  | .settle => u.machine.parked = none ∨ u.machine.parked = some .checkLoop
  | .resolve _ _ => False
  | .work _ _ | .call _ | .finished _ _ => u.machine.parked = none

theorem Forward.resumes (h : u.Forward) : u.resumes = false := by
  unfold Turn.resumes
  split
  · rw [h.1]
    rfl
  · rfl

theorem root_sequence_turn (m : Machine κ) (t : Task κ) (windingUp : Bool) :
    (m.turn t windingUp).machine.root.sequence = m.root.sequence := by
  have hs : (m.step t).machine.root.sequence = m.root.sequence := (Machine.of_step rfl t).1
  rcases m.turn_cases t windingUp with ⟨a, -, he⟩ | ⟨f, -, ⟨p, ns, -, he⟩ | ⟨ns, he⟩⟩ <;> rw [he]
  · exact hs
  · exact hs
  · exact hs

theorem Next.onStraight (hn : Next u v) (h : u.OnStraight) : v.OnStraight := by
  refine ⟨hn.bounded h.bounded, ?_⟩
  cases hn with
  | work =>
    rw [root_sequence_turn]
    exact h.straight
  | unpark | called | resolved | told => exact h.straight

theorem Next.forward (hn : Next u v) (hs : u.OnStraight) (h : u.Forward) : v.Forward := by
  cases hn with
  | @work m ns t windingUp =>
    have hf : (m.step t).Forward none :=
      Machine.forward_step hs.bounded.machine hs.plain h.1 (hs.bounded.task _ _ rfl) h.2
    rcases m.turn_cases t windingUp with ⟨a, ha, he⟩ | ⟨f, -, ⟨p, ns, hp, he⟩ | ⟨ns, he⟩⟩ <;>
      rw [he]
    · refine ⟨hf.parked, ?_⟩
      cases hq : (m.step t).sequel <;> rw [hq] at ha
      case fault => exact absurd ha nofun
      case resolve => exact absurd hq (hf.resolve _ _)
      case task =>
        obtain rfl := Option.some.inj ha
        exact hf.task _ hq
      all_goals
        obtain rfl := Option.some.inj ha
        trivial
    · rcases hp with rfl | rfl
      · exact ⟨rfl, trivial⟩
      · exact ⟨hf.parked, trivial⟩
    · exact ⟨rfl, trivial⟩
  | unpark hp => exact absurd (h.1.symm.trans hp) nofun
  | called | told => exact ⟨h.1, trivial⟩
  | resolved => exact absurd h.2 not_false

theorem Next.circling (hn : Next u v) (hs : u.OnStraight) (h : u.Circling)
    (hr : u.resumes = false) :
    v.Circling := by
  cases hn with
  | @work m ns t windingUp =>
    have hf : (m.step t).Circling none :=
      Machine.circling_step hs.bounded.machine hs.plain h (hs.bounded.task _ _ rfl)
    rcases m.turn_cases t windingUp with ⟨a, ha, he⟩ | ⟨f, hq, ⟨p, ns, hp, he⟩ | ⟨ns, he⟩⟩ <;>
      rw [he]
    · rcases hf with ⟨hp, hres⟩ | ⟨hp, hq⟩
      · cases hq : (m.step t).sequel <;> rw [hq] at ha
        case fault => exact absurd ha nofun
        case resolve => exact absurd hq (hres _ _)
        all_goals obtain rfl := Option.some.inj ha
        case settle => exact .inl hp
        all_goals exact hp
      · rw [hq] at ha
        obtain rfl := Option.some.inj ha
        exact .inr hp
    · rcases hp with rfl | rfl
      · exact .inl rfl
      · rcases hf with ⟨hp, -⟩ | ⟨-, hq'⟩
        · exact .inl hp
        · exact absurd (hq.symm.trans hq') nofun
    · exact rfl
  | unpark hp =>
    rw [Turn.resumes, hp] at hr
    exact absurd hr nofun
  | called | told => exact .inl h
  | resolved => exact absurd h not_false

theorem Next.forward_of_resumes (hn : Next u v) (h : u.Circling) (hr : u.resumes = true) :
    v.Forward := by
  cases hn with
  | unpark hp =>
    rcases h with hp' | hp'
    · exact absurd (hp.symm.trans hp') nofun
    · obtain rfl := Option.some.inj (hp.symm.trans hp')
      exact ⟨rfl, trivial⟩
  | work | called | resolved | told => exact absurd hr nofun

theorem Path.forward (path : Path u us v) (hs : u.OnStraight) (h : u.Forward) :
    v.Forward ∧ (∀ b ∈ us, b.resumes = false) ∧ ∀ b ∈ us, ∀ r ps, b.act ≠ .resolve r ps := by
  induction path with
  | refl => exact ⟨h, List.forall_mem_nil _, List.forall_mem_nil _⟩
  | @cons u x v us hn path ih =>
    obtain ⟨hv, hres, hact⟩ := ih (hn.onStraight hs) (hn.forward hs h)
    refine ⟨hv, List.forall_mem_cons.mpr ⟨h.resumes, hres⟩, List.forall_mem_cons.mpr ⟨?_, hact⟩⟩
    intro r ps ha
    have hu := h.2
    rw [ha] at hu
    exact hu

/-- Along the way something parked is taken up at most once, and no resolver is asked. -/
theorem Path.circling (path : Path u us v) (hs : u.OnStraight) (h : u.Circling) :
    (v.Circling ∨ v.Forward) ∧ us.countP (·.resumes) ≤ 1 ∧
      ∀ b ∈ us, ∀ r ps, b.act ≠ .resolve r ps := by
  induction path with
  | refl => exact ⟨.inl h, Nat.zero_le _, List.forall_mem_nil _⟩
  | @cons u x v us hn path ih =>
    have hact : ∀ r ps, u.act ≠ .resolve r ps := by
      intro r ps ha
      rw [Turn.Circling, ha] at h
      exact h
    cases hr : u.resumes with
    | false =>
      obtain ⟨hv, hcount, hus⟩ := ih (hn.onStraight hs) (hn.circling hs h hr)
      rw [List.countP_cons_of_neg (by rw [hr]; exact Bool.false_ne_true)]
      exact ⟨hv, hcount, List.forall_mem_cons.mpr ⟨hact, hus⟩⟩
    | true =>
      obtain ⟨hv, hres, hus⟩ := path.forward (hn.onStraight hs) (hn.forward_of_resumes h hr)
      have hcount : us.countP (·.resumes) = 0 :=
        List.countP_eq_zero.mpr fun b hb => by simp [hres b hb]
      rw [List.countP_cons_of_pos hr, hcount]
      exact ⟨.inr hv, Nat.le_refl 1, List.forall_mem_cons.mpr ⟨hact, hus⟩⟩

theorem Path.onStraight (path : Path u us v) (hs : u.OnStraight) : v.OnStraight := by
  induction path with
  | refl => exact hs
  | cons hn _ ih => exact ih (hn.onStraight hs)

theorem Forward.exists_settled (hs : u.OnStraight) (h : u.Forward) :
    ∃ us v, Path u us v ∧ v.Settled := by
  obtain ⟨us, v, path, -, ha⟩ := u.exists_settle
  exact ⟨us, v, path, ha, (path.forward hs h).1.1⟩

theorem Circling.exists_settled (hs : u.OnStraight) (h : u.Circling) :
    ∃ us v, Path u us v ∧ v.Settled := by
  obtain ⟨us, v, path, -, ha⟩ := u.exists_settle
  cases hp : v.machine.parked with
  | none => exact ⟨us, v, path, ha, hp⟩
  | some p =>
    -- The chain ends with something parked; what follows it goes forward.
    have hv : v.Circling := by
      rcases (path.circling hs h).1 with hv | hv
      · exact hv
      · exact absurd (hv.1.symm.trans hp) nofun
    have hr : v.resumes = true := by
      rw [Turn.resumes, ha, hp]
      rfl
    obtain ⟨x, hn⟩ := v.settled_or_next.resolve_left fun hset => by
      exact absurd (hset.2.symm.trans hp) nofun
    have hsx := hn.onStraight (path.onStraight hs)
    obtain ⟨vs, w, path', hw⟩ := (hn.forward_of_resumes hv hr).exists_settled hsx
    exact ⟨us ++ v :: vs, w, path.trans (.cons hn path'), hw⟩

end Turn

/-- Whatever the state and the task, only so many turns follow before nothing is left to do but what
has been parked; so if turns follow each other for ever, parked tasks are taken up for ever. In a
run of a straight sequence every signal is dealt with in the end: there is one course of turns to
where nothing is left to do, and it takes up at most one parked task. -/
theorem Machine.signals_terminate :
    (∀ (m : Machine κ) (t : Task κ) ns windingUp, ∃ n, ∀ us v,
      Turn.Path ⟨m, ns, .work t windingUp⟩ us v → (∀ b ∈ us, b.resumes = false) → us.length ≤ n) ∧
    (∀ u : Turn κ, u.Settled ∨ ∃ v, Turn.Next u v) ∧
    (∀ f : Nat → Turn κ, (∀ i, Turn.Next (f i) (f (i + 1))) →
      ∀ n, ∃ i, n ≤ i ∧ (f i).resumes = true) ∧
    ∀ m : Machine κ, m.Reachable → m.root.sequence.Straight → ∀ s : Signal,
      ∃ us v, Turn.Path (m.receive s) us v ∧ v.Settled ∧ us.countP (·.resumes) ≤ 1 ∧
        ∀ us' v', Turn.Path (m.receive s) us' v' → us' <+: us := by
  refine ⟨fun m t ns windingUp => ⟨Turn.budget ⟨m, ns, .work t windingUp⟩, fun us v path h => ?_⟩,
    Turn.settled_or_next, fun f hf => Turn.exists_resumes hf, fun m hm hstraight s => ?_⟩
  · exact Nat.le_trans (Nat.le_add_right ..) (path.length_le_budget h)
  · have hu : (m.receive s).Occurs := hm.receive s
    have hs : (m.receive s).OnStraight := ⟨hu.bounded, hstraight⟩
    have hc : (m.receive s).Circling := hm.wellFormed.parked
    obtain ⟨us, v, path, hv⟩ := hc.exists_settled hs
    obtain ⟨-, hcount, hact⟩ := path.circling hs hc
    exact ⟨us, v, path, hv, hcount, fun us' v' path' => path.isPrefix hv hact path'⟩

theorem Sequence.plain_of_leaves {s : Sequence κ}
    (h : ∀ e ∈ s.entries, (e.jump = none ∧ ∀ g, e ≠ .goto g) ∧ ∀ r, ¬ e.Offers r) : s.Plain := by
  rintro e ⟨r, hr, he⟩
  rcases he.cases_head with rfl | ⟨b, hb, -⟩
  · exact (h r hr).1
  · exact absurd hb ((h r hr).2 b)

theorem straight_humming : humming.Straight := by
  have hbody : Sequence.Throughout Sequence.Plain
      ({ entries := [.method { operation := () }] } : Sequence Unit) := by
    refine Sequence.throughout_iff.mpr ⟨Sequence.plain_of_leaves fun e he => ?_, fun e he => ?_⟩
    · obtain rfl := List.mem_singleton.mp he
      exact ⟨⟨rfl, fun _ hg => absurd hg nofun⟩, nofun⟩
    · obtain rfl := List.mem_singleton.mp he
      exact Entry.throughout_method _
  refine Sequence.throughout_iff.mpr ⟨Sequence.plain_of_leaves fun e he => ?_, fun e he => ?_⟩
  · rcases List.mem_pair.mp he with rfl | rfl
    · exact ⟨⟨rfl, fun _ hg => absurd hg nofun⟩, nofun⟩
    · refine ⟨⟨rfl, fun _ hg => absurd hg nofun⟩, fun r hr => ?_⟩
      cases hr with
      | onSuccess h | onError h => exact absurd h nofun
  · rcases List.mem_pair.mp he with rfl | rfl
    · exact Entry.throughout_error _
    · exact Entry.throughout_loop hbody (fun _ h => absurd h nofun) fun _ h => absurd h nofun

/-- The operation has been called in the body of the loop. -/
def hummingAtWork : Machine Unit :=
  let l : Loop Unit :=
    ⟨none, .always, { entries := [.method { operation := () }] }, none, none, none⟩
  { root := { sequence := humming, cursor := 2, stack := [.loop { loop := l, ran := true }]
              errors := [.string "late"] }
    children := [⟨.loopBody, { sequence := l.block, cursor := 1 }⟩] }

theorem reachable_hummingAtWork : hummingAtWork.Reachable := by
  have path : Turn.Path ((Machine.start humming).receive .next) _
      ⟨hummingAtWork, [], .call { operation := () }⟩ :=
    .cons .work <| .cons .work <| .cons .work <| .cons .work <| .cons .work <| .cons .work <|
      .cons .work <| .refl _
  exact ⟨_, ((Machine.reachable_start humming).receive .next).path path, trivial, rfl⟩

/-- The operation has the loop go round again, which is taken up once. -/
theorem humming_signal_terminates :
    hummingAtWork.Reachable ∧ hummingAtWork.root.sequence.Straight ∧
      ∃ us v, Turn.Path (hummingAtWork.receive .proceed) us v ∧ v.Settled ∧
        us.countP (·.resumes) = 1 ∧
        ∀ us' v', Turn.Path (hummingAtWork.receive .proceed) us' v' → us' <+: us := by
  obtain ⟨us, v, path, hv, hcount, hpre⟩ := Machine.signals_terminate.2.2.2 hummingAtWork
    reachable_hummingAtWork straight_humming .proceed
  have again : Turn.Path (hummingAtWork.receive .proceed) _ _ :=
    .cons .work <| .cons (.unpark rfl) <| .refl _
  have hle : 1 ≤ us.countP (·.resumes) :=
    (hpre _ _ again).sublist.countP_le (p := fun b : Turn Unit => b.resumes)
  exact ⟨reachable_hummingAtWork, straight_humming, us, v, path, hv, Nat.le_antisymm hcount hle,
    hpre⟩

end Sequencer
