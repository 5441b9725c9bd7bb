import Sequencer.Proofs.Machine.Conditions
import Sequencer.Proofs.Machine.LoopJumps

/-! Where a sequence goes once a handler of a loop has been dealt with. The jump of the loop is
handed to the handler as a fallback, and it is taken if nothing else is dispatched or left in the
frame before the frame goes on. A branch of the handler, a condition that says no and a loop that is
followed by a jump of its own or by none let the jump be forgotten. -/

namespace Sequencer
variable {κ : Type}

/-- An entry that comes down to one operation and leaves nothing on the stack. -/
inductive Entry.Calls : Entry κ → MethodCall κ → Prop
  | method (c : MethodCall κ) : Calls (.method c) c
  | error (label : Option String) (c : MethodCall κ) (jump : Option String) (breakOnEmit : Bool) :
    Calls (.error ⟨label, .method c, jump, breakOnEmit⟩) c

namespace Turn

/-- The nested sequence that a turn dispatches has not been left. -/
def InNested (d u : Turn κ) : Prop :=
  Stays (fun u => d.machine.children.length < u.machine.children.length) d u

/-- The entry that a turn dispatches is dealt with, and its frame goes on, before anything else in
the frame is dispatched or left. -/
inductive Settles (d : Turn κ) : Entry κ → Turn κ → Prop
  | called {e : Entry κ} {c : MethodCall κ} {a x : Turn κ} {s : Signal} (he : e.Calls c)
    (hn : Next d a) (hx : (a.machine.receive s).GoesOn x) : Settles d e x
  | emitted {label jump : Option String} {text : String} {b : Bool} {x : Turn κ}
    (hx : d.Resumes x) : Settles d (.error ⟨label, .message text, jump, b⟩) x
  | nested {s : SequenceEntry κ} {u x : Turn κ} (hu : InNested d u) (hx : u.Resumes x)
    (hd : x.machine.children.length = d.machine.children.length) : Settles d (.sequence s) x
  | agreed {c : Conditional κ} {a x : Turn κ} {s : Signal} (hs : s = .yes ∨ s = .proceed)
    (hn : Next d a) (hx : (a.machine.receive s).Resumes x) : Settles d (.conditional c) x
  /-- The body leaves a loop that does not handle its errors. -/
  | spilled {l : Loop κ} {u v x : Turn κ} {st : LoopState κ} (hv : d.Leaves u v st)
    (hu : d.machine.children.length < u.machine.children.length) (he : st.errors ≠ [])
    (hh : st.handled = false) (hx : v.Resumes x) : Settles d (.loop l) x

/-- The entry that a turn dispatches is dealt with, along with the branches and handlers to which it
leads and which have no jumps, and its frame goes on. -/
inductive Completes : Turn κ → Turn κ → Prop
  | settles {d x : Turn κ} {e : Entry κ} {fallback : Option String} {w : Bool}
    (ha : d.act = .work (.dispatch e fallback) w) (h : d.Settles e x) : Completes d x
  | denied {d a x : Turn κ} {c : Conditional κ} {fallback : Option String} {w : Bool}
    (ha : d.act = .work (.dispatch (.conditional c) fallback) w) (hn : Next d a) {s : Signal}
    (hs : s = .no ∨ s = .leave) (hx : (a.machine.receive s).Resumes x) : Completes d x
  | branch {d a z x : Turn κ} {c : Conditional κ} {e : Entry κ} {fallback fallback' : Option String}
    {w w' : Bool} (ha : d.act = .work (.dispatch (.conditional c) fallback) w) (hn : Next d a)
    {s : Signal} (hs : s = .yes ∨ s = .proceed ∨ s = .no ∨ s = .leave)
    (hz : Next (a.machine.receive s) z) (hza : z.act = .work (.dispatch e fallback') w')
    (hj : e.jump = none) (h : Completes z x) : Completes d x
  | left {d u v x : Turn κ} {l : Loop κ} {st : LoopState κ} {fallback : Option String} {w : Bool}
    (ha : d.act = .work (.dispatch (.loop l) fallback) w) (hv : d.Leaves u v st)
    (hx : v.Resumes x) : Completes d x
  | handled {d u v z x : Turn κ} {l : Loop κ} {st : LoopState κ} {e : Entry κ}
    {fallback fallback' : Option String} {w w' : Bool}
    (ha : d.act = .work (.dispatch (.loop l) fallback) w) (hv : d.Leaves u v st) (hz : Next v z)
    (hza : z.act = .work (.dispatch e fallback') w') (hj : e.jump = none) (h : Completes z x) :
    Completes d x

section
variable {d a u v x : Turn κ} {fallback : Option String} {windingUp : Bool}

theorem Occurs.underway_of_deeper (h : u.Occurs) {m : Machine κ}
    (hc : m.children.length < u.machine.children.length) (hn : Next u v) : u.Underway := by
  rcases h.cases with hu | ⟨hs, -⟩ | ⟨ho, -⟩
  · exact hu
  · exact absurd hn hs.not_next
  · rw [ho.children] at hc
    exact absurd hc (Nat.not_lt_zero _)

theorem Next.calls {e : Entry κ} {c : MethodCall κ} (he : e.Calls c) (hn : Next d a)
    (ha : d.act = .work (.dispatch e fallback) windingUp) :
    a.machine = d.machine.setJump (e.jump.or fallback) ∧ a.act = .call c := by
  have hmove : d.machine.step (.dispatch e fallback) =
      (d.machine.setJump (e.jump.or fallback)).invoke c := by
    cases he <;> rfl
  have hs : (d.machine.step (.dispatch e fallback)).sequel.act? windingUp = some (.call c) := by
    rw [hmove]
    rfl
  rw [hn.of_act? ha hs, hmove]
  exact ⟨rfl, rfl⟩

section
variable {c : Conditional κ} {s : Signal} (hd : d.Occurs)
  (ha : d.act = .work (.dispatch (.conditional c) fallback) windingUp) (hn : Next d a)
  (hv : Next (a.machine.receive s) v)
include hd ha hn hv

theorem Next.answered_yes (hs : s = .yes ∨ s = .proceed) :
    v = ⟨d.machine.setJump fallback, [], .work (branchTask c.whenTrue) false⟩ := by
  have hf : (d.machine.setJump fallback).active.finished = false := by
    rw [Machine.active_setJump]
    exact (hd.underway_of_dispatch ha).active_finished ha
  rw [(hn.asks ha).1] at hv
  rcases hs with rfl | rfl <;> exact hv.of_go rfl (Machine.step_yes_pushConditional hf c _)

theorem Next.answered_no (hs : s = .no ∨ s = .leave) :
    v = ⟨d.machine.setJump none, [], .work (branchTask c.whenFalse) false⟩ := by
  have hf : (d.machine.setJump fallback).active.finished = false := by
    rw [Machine.active_setJump]
    exact (hd.underway_of_dispatch ha).active_finished ha
  rw [(hn.asks ha).1] at hv
  rw [← Machine.setJump_setJump d.machine fallback none]
  rcases hs with rfl | rfl <;> exact hv.of_go rfl (Machine.step_no_pushConditional hf c)

end

theorem Next.routes (hn : Next u v) (hu : u.Underway) {st : LoopState κ} {e : Entry κ} {w w' : Bool}
    (ha : u.act = .work (.exitLoop st) w) (hv : v.act = .work (.dispatch e fallback) w') :
    v.machine = u.machine ∧ fallback = st.loop.jump := by
  obtain ⟨hm, hs⟩ := hn.move_task hu ha hv nofun
  dsimp only [Machine.step] at hm hs
  rcases u.machine.exitLoop_cases st with ⟨he, -⟩ | ⟨e', he⟩ | ⟨he, -⟩ <;> rw [he] at hm hs
  · exact absurd hs nofun
  · exact ⟨hm, (Task.dispatch.inj (Sequel.task.inj hs)).2.symm⟩
  · exact absurd hs nofun

theorem Next.nested (hn : Next u v) (hu : u.Underway) {m : Machine κ} (hp : m.parked = none)
    (h : m.Upon .nested u.machine) :
    m.Upon .nested v.machine ∨ v.machine = m ∨
      (v.machine.children.length = m.children.length ∧ ∃ p w, v.act = .work (.proceed p) w) ∨
      ∃ w, v.act = .work .finish w := by
  rcases hn.upon hu hp h with hv | ⟨errors, t, w, mv, -, htake, hm, ha⟩ | hf
  · exact .inl hv
  · cases htake with
    | forward p =>
      refine .inr (.inr (.inl ⟨?_, p, w, (Option.some.inj ha).symm⟩))
      rw [hm]
      exact Machine.length_children_recordErrors ..
    | leave => exact .inr (.inl hm)
    | complete => exact .inr (.inl hm)
    | finish => exact .inr (.inr (.inr ⟨w, (Option.some.inj ha).symm⟩))
  · exact .inr (.inr (.inr hf))

theorem InNested.upon (hd : d.Occurs) {s : SequenceEntry κ}
    (ha : d.act = .work (.dispatch (.sequence s) fallback) windingUp) (h : InNested d u) :
    (d.machine.setJump (s.jump.or fallback)).Upon .nested u.machine ∨
      ∃ w, u.act = .work .finish w := by
  have hp : (d.machine.setJump (s.jump.or fallback)).parked = none := by
    rw [Machine.parked_setJump]
    exact (hd.underway_of_dispatch ha).parked ha
  have hlen := Machine.length_children_setJump d.machine (s.jump.or fallback)
  induction h with
  | enter hn hv =>
    have hs : (d.machine.step (.dispatch (.sequence s) fallback)).sequel.act? windingUp =
        some (.work .next windingUp) := rfl
    rw [hn.of_act? ha hs]
    exact .inl (Machine.upon_enter ..)
  | @next u v h hn hv ih =>
    have hu : u.Underway := (Stays.occurs h hd).underway_of_deeper h.holds hn
    rcases ih with hup | ⟨w, hw⟩
    · rcases hn.nested hu hp hup with hup | hm | ⟨hm, -⟩ | hf
      · exact .inl hup
      · rw [hm, hlen] at hv
        exact absurd hv (Nat.lt_irrefl _)
      · rw [hm, hlen] at hv
        exact absurd hv (Nat.lt_irrefl _)
      · exact .inr hf
    · rcases hn.of_finish hu hw with hf | ⟨hc, -⟩
      · exact .inr hf
      · rw [hc] at hv
        exact absurd hv (Nat.not_lt_zero _)
  | @receive u h idle s hv ih =>
    rcases ih with hup | ⟨w, hw⟩
    · exact .inl hup
    · obtain ⟨m, ns, b⟩ := u
      obtain rfl : b = .work .finish w := hw
      exact absurd idle not_false

theorem InNested.resumes (hd : d.Occurs) {s : SequenceEntry κ}
    (ha : d.act = .work (.dispatch (.sequence s) fallback) windingUp) (h : InNested d u)
    (hx : u.Resumes x) (hlen : x.machine.children.length = d.machine.children.length) :
    x.Underway ∧ ∃ es, x.machine = (d.machine.setJump (s.jump.or fallback)).recordErrors es := by
  obtain ⟨y, hn, hy⟩ := hx
  have hu : u.Underway := (Stays.occurs h hd).underway_of_deeper h.holds hn
  have hp : (d.machine.setJump (s.jump.or fallback)).parked = none := by
    rw [Machine.parked_setJump]
    exact (hd.underway_of_dispatch ha).parked ha
  obtain ⟨t, w, hya, ht⟩ := hy.start
  have hyu : y.Underway := by
    rcases hn.underway hu with hyu | ⟨-, hs, -⟩
    · exact hyu
    · exact absurd (hya.symm.trans hs.1) nofun
  obtain ⟨es, hes⟩ := hy.recordErrors hyu
  have hylen : y.machine.children.length = d.machine.children.length := by
    rw [← hlen, hes, Machine.length_children_recordErrors]
  have hne (t' : Task κ) (w' : Bool) (he : y.act = .work t' w') : t = t' :=
    (Act.work.inj (hya.symm.trans he)).1
  refine ⟨hy.underway hyu, es, ?_⟩
  -- Nothing is left in going on, so the nested frame is left in the first turn.
  rcases h.upon hd ha with hup | ⟨w', hw⟩
  · rcases hn.nested hu hp hup with hup | hm | ⟨-, p, w', he⟩ | ⟨w', he⟩
    · have hlt := hup.length_lt
      rw [hylen, Machine.length_children_setJump] at hlt
      exact absurd hlt (Nat.lt_irrefl _)
    · rw [hes, hm]
    · obtain rfl := hne _ _ he
      exact absurd ht (by simp)
    · obtain rfl := hne _ _ he
      exact absurd ht (by simp)
  · rcases hn.of_finish hu hw with ⟨w', he⟩ | ⟨-, -, o, handler, he⟩
    · obtain rfl := hne _ _ he
      exact absurd ht (by simp)
    · exact absurd (hya.symm.trans he) nofun

theorem Settles.machine (hd : d.Occurs) {e : Entry κ}
    (ha : d.act = .work (.dispatch e fallback) windingUp) (h : d.Settles e x) :
    x.Underway ∧ (∃ w, x.act = .work .next w) ∧
      ∃ es, x.machine = (d.machine.setJump (e.jump.or fallback)).recordErrors es := by
  have hdu := hd.underway_of_dispatch ha
  cases h with
  | @called _ _ _ _ s he hn hx =>
    obtain ⟨hm, hc⟩ := hn.calls he ha
    have hu := hd.receive_dispatched ha hn hc s
    obtain ⟨es, hes⟩ := hx.recordErrors hu
    exact ⟨hx.underway hu, hx.act, es, by rw [hes, ← hm]; rfl⟩
  | emitted hx =>
    obtain ⟨y, hn, hy⟩ := hx
    have hyu := hn.underway_of_work hdu ha
    obtain ⟨es, hes⟩ := hy.recordErrors hyu
    rw [hn.of_go ha rfl] at hes
    exact ⟨hy.underway hyu, hy.act, es, hes⟩
  | nested hu hx hlen =>
    obtain ⟨hxu, hes⟩ := hu.resumes hd ha hx hlen
    exact ⟨hxu, hx.act, hes⟩
  | agreed hs hn hx =>
    obtain ⟨y, hy, hyx⟩ := hx
    have hyu := hy.underway_of_work (hd.receive_dispatched ha hn (hn.asks ha).2 _) rfl
    obtain ⟨es, hes⟩ := hyx.recordErrors hyu
    rw [hn.answered_yes hd ha hy hs] at hes
    exact ⟨hyx.underway hyu, hyx.act, es, hes⟩
  | @spilled _ _ _ _ st hv hu he hh hx =>
    obtain ⟨w, hva⟩ := hv.routed
    have hvu := hv.underway hd
    refine ⟨hx.underway hvu hva, hx.act, st.errors, ?_⟩
    rcases hx.of_exitLoop hvu hva with ⟨-, hc⟩ | ⟨hm, -⟩
    · rcases hc with hc | hc
      · exact absurd hc he
      · exact absurd (hh.symm.trans hc) nofun
    · rcases (hv.cases hd ha).2 with ⟨hlen, -⟩ | ⟨-, hvm⟩
      · exact absurd hlen (Nat.ne_of_gt hu)
      · rw [hm, hvm]
        rfl

/-- The frame of an entry goes on as it was when the entry was dispatched, up to recorded errors and
the pending jump, and a jump is pending only if the entry has settled by itself. -/
def Rejoins (d : Turn κ) (e : Entry κ) (x : Turn κ) : Prop :=
  x.Underway ∧ (∃ w, x.act = .work .next w) ∧
    ∃ j es, x.machine = (d.machine.setJump j).recordErrors es ∧ (j = none ∨ d.Settles e x)

/-- An entry without a jump that is dispatched on behalf of another lets the jump be forgotten. -/
theorem Rejoins.of_branch {z : Turn κ} {e e' : Entry κ} {j : Option String} (h : z.Rejoins e' x)
    (hz : z.Occurs) (hza : z.act = .work (.dispatch e' none) windingUp) (hj : e'.jump = none)
    (hzm : z.machine = d.machine.setJump j) : d.Rejoins e x := by
  obtain ⟨hxu, hxa, j', es, hxm, hs⟩ := h
  refine ⟨hxu, hxa, none, ?_⟩
  rcases hs with rfl | hs
  · exact ⟨es, by rw [hxm, hzm, Machine.setJump_setJump], .inl rfl⟩
  · obtain ⟨-, -, es', hxm'⟩ := hs.machine hz hza
    refine ⟨es', ?_, .inl rfl⟩
    rw [hxm', hj, hzm, Machine.setJump_setJump]
    rfl

theorem Completes.rejoins (h : Completes d x) (hd : d.Occurs) {e : Entry κ}
    (ha : d.act = .work (.dispatch e fallback) windingUp) (hj : e.jump = none) :
    d.Rejoins e x := by
  induction h generalizing e fallback windingUp with
  | @settles d x e' fallback' w ha' h =>
    obtain rfl := (Task.dispatch.inj (Act.work.inj (ha'.symm.trans ha)).1).1
    obtain ⟨hxu, hxa, es, hxm⟩ := h.machine hd ha
    exact ⟨hxu, hxa, _, es, hxm, .inr h⟩
  | @denied d a x c fallback' w ha' hn s hs hx =>
    obtain ⟨y, hy, hyx⟩ := hx
    have hyu := hy.underway_of_work (hd.receive_dispatched ha' hn (hn.asks ha').2 s) rfl
    obtain ⟨es, hes⟩ := hyx.recordErrors hyu
    rw [hn.answered_no hd ha' hy hs] at hes
    exact ⟨hyx.underway hyu, hyx.act, none, es, hes, .inl rfl⟩
  | @branch d a z x c e' fallback' fallback'' w w' ha' hn s hs hz hza hj' _ ih =>
    have hzo : z.Occurs := by
      have hidle : a.Idle := by
        rw [Idle, (hn.asks ha').2]
        trivial
      exact ((hd.next hn).receive hidle s).next hz
    have hzj : ∃ j branch, z = ⟨d.machine.setJump j, [], .work (branchTask branch) false⟩ := by
      rcases hs with hs | hs | hs
      · exact ⟨_, _, hn.answered_yes hd ha' hz (.inl hs)⟩
      · exact ⟨_, _, hn.answered_yes hd ha' hz (.inr hs)⟩
      · exact ⟨_, _, hn.answered_no hd ha' hz hs⟩
    obtain ⟨j, branch, rfl⟩ := hzj
    cases branch with
    | none => cases hza
    | some e'' =>
      obtain ⟨rfl, rfl⟩ := Task.dispatch.inj (Act.work.inj hza).1
      exact (ih hzo hza hj').of_branch hzo hza hj' rfl
  | @left d u v x l st fallback' w ha' hv hx =>
    obtain rfl := (Task.dispatch.inj (Act.work.inj (ha'.symm.trans ha)).1).1
    obtain ⟨w', hva⟩ := hv.routed
    have hvu := hv.underway hd
    obtain ⟨rfl, hvm⟩ := hv.cases hd ha
    refine ⟨hx.underway hvu hva, hx.act, ?_⟩
    rcases hx.of_exitLoop hvu hva with ⟨hm, -⟩ | ⟨hm, hne, hh⟩
    · refine ⟨none, [], ?_, .inl rfl⟩
      have hjump : st.loop.jump = none := hj
      rw [hm, hjump, Machine.recordErrors_nil]
      rcases hvm with ⟨-, hvm⟩ | ⟨-, hvm⟩ <;> rw [hvm, Machine.setJump_setJump]
    · rcases hvm with ⟨-, hvm⟩ | ⟨hlt, hvm⟩
      · exact ⟨none, st.errors, by rw [hm, hvm], .inl rfl⟩
      · exact ⟨_, st.errors, by rw [hm, hvm], .inr (.spilled hv hlt hne hh hx)⟩
  | @handled d u v z x l st e' fallback' fallback'' w w' ha' hv hz hza hj' _ ih =>
    obtain rfl := (Task.dispatch.inj (Act.work.inj (ha'.symm.trans ha)).1).1
    obtain ⟨w'', hva⟩ := hv.routed
    obtain ⟨hl, hvm⟩ := hv.cases hd ha
    have hzo : z.Occurs := ((Stays.occurs hv.inLoop hd).next hv.next).next hz
    obtain ⟨hzm, hzf⟩ := hz.routes (hv.underway hd) hva hza
    have hjump : st.loop.jump = none := by
      rw [hl]
      exact hj
    rw [hzf, hjump] at hza
    obtain ⟨j, hvj⟩ : ∃ j, v.machine = d.machine.setJump j := by
      rcases hvm with ⟨-, hvm⟩ | ⟨-, hvm⟩
      · exact ⟨_, hvm⟩
      · exact ⟨_, hvm⟩
    exact (ih hzo hza hj').of_branch hzo hza hj' (hzm.trans hvj)

end

theorem Completes.settles_of_plain {d x : Turn κ} (h : Completes d x) {e : Entry κ}
    {fallback : Option String} {windingUp : Bool}
    (ha : d.act = .work (.dispatch e fallback) windingUp) (hc : ∀ c, e ≠ .conditional c)
    (hl : ∀ l, e ≠ .loop l) : d.Settles e x := by
  have hentry {e' : Entry κ} {f : Option String} {w : Bool}
      (ha' : d.act = .work (.dispatch e' f) w) : e = e' :=
    (Task.dispatch.inj (Act.work.inj (ha.symm.trans ha')).1).1
  cases h with
  | settles ha' h =>
    obtain rfl := hentry ha'
    exact h
  | denied ha' | branch ha' => exact absurd (hentry ha') (hc _)
  | left ha' | handled ha' => exact absurd (hentry ha') (hl _)

/-- When the handler of a loop with a jump has been dealt with and the frame goes on, it goes to the
label just in case the handler has settled by itself, as one that is neither a conditional nor a
loop always does. -/
theorem handler_jump_fires_iff {v d x : Turn κ} (hv : v.Occurs) {st : LoopState κ} {w : Bool}
    (hva : v.act = .work (.exitLoop st) w) {label : String} (hl : st.loop.jump = some label)
    (hn : Next v d) {e : Entry κ} {fallback : Option String} {w' : Bool}
    (ha : d.act = .work (.dispatch e fallback) w') (hj : e.jump = none) (h : Completes d x) :
    (∃ j es, x.machine = (v.machine.setJump j).recordErrors es) ∧
      (x.Fires label ↔ d.Settles e x) ∧
      ((∀ c, e ≠ .conditional c) → (∀ l, e ≠ .loop l) → x.Fires label) := by
  have hvu := hv.underway_of_task hva fun s => by cases s <;> exact nofun
  obtain ⟨hdm, hfb⟩ := hn.routes hvu hva ha
  rw [hl] at hfb
  obtain ⟨hxu, ⟨w'', hxa⟩, j, es, hxm, hs⟩ := h.rejoins (hv.next hn) ha hj
  have hiff : x.Fires label ↔ d.Settles e x := by
    rw [fires_iff hxu hxa]
    constructor
    · intro hp
      rw [hxm, Machine.active_recordErrors, Machine.active_setJump] at hp
      rcases hs with rfl | hs
      · exact absurd hp nofun
      · exact hs
    · intro hs
      obtain ⟨-, -, es', hxm'⟩ := hs.machine (hv.next hn) ha
      rw [hxm', hj, hfb, Machine.active_recordErrors, Machine.active_setJump]
      rfl
  exact ⟨⟨j, es, by rw [hxm, hdm]⟩, hiff, fun hc hl' => hiff.mpr (h.settles_of_plain ha hc hl')⟩

def question : Conditional Unit :=
  ⟨none, { operation := () }, some (.method { operation := () }), none⟩

def detour : Loop Unit :=
  ⟨none, .method { operation := () }, { entries := [.method { operation := () }] },
    some (.conditional question), none, some "last"⟩

def detouring : Sequence Unit :=
  (({} : Sequence Unit).push (.loop detour)).push (.method { operation := () }) |>.push
    (.method { label := some "last", operation := () })

def detouringAt (stack : List (Construct Unit)) (pendingJump : Option String) : Machine Unit :=
  { root := { sequence := detouring, cursor := 1, stack, pendingJump } }

theorem detouring_left : Occurs
    ⟨detouringAt [] none, [], .work (.exitLoop { loop := detour, ran := true }) false⟩ := by
  have asked : Occurs _ := (((Occurs.start detouring).receive rfl .next).next .work).next .work
  have body : Occurs _ := ((((asked.receive trivial .yes).next .work).next .work).next .work)
  have again : Occurs _ := ((body.receive trivial .proceed).next .work).next (.unpark rfl)
  exact ((again.next .work).receive trivial .no).next .work

theorem detouring_completes : Completes
    ⟨detouringAt [] none, [], .work (.dispatch (.conditional question) (some "last")) false⟩
    ⟨detouringAt [] none, [], .work .next false⟩ := by
  have asks : Next
      ⟨detouringAt [] none, [], .work (.dispatch (.conditional question) (some "last")) false⟩
      ⟨detouringAt [.conditional question] (some "last"), [], .call { operation := () }⟩ := .work
  have answered : Next ((detouringAt [.conditional question] (some "last")).receive .yes)
      ⟨detouringAt [] (some "last"), [],
        .work (.dispatch (.method { operation := () }) none) false⟩ := .work
  have called : Next
      ⟨detouringAt [] (some "last"), [], .work (.dispatch (.method { operation := () }) none) false⟩
      ⟨detouringAt [] none, [], .call { operation := () }⟩ := .work
  have settles := Settles.called (s := .next) (.method { operation := () }) called (.directly rfl)
  exact .branch rfl asks (.inl rfl) answered rfl rfl (.settles rfl settles)

theorem detouring_jump_fires_iff : ∃ (v d x : Turn Unit) (st : LoopState Unit) (e : Entry Unit),
    v.Occurs ∧ v.act = .work (.exitLoop st) false ∧ st.loop.jump = some "last" ∧ Next v d ∧
      d.act = .work (.dispatch e (some "last")) false ∧ e.jump = none ∧ Completes d x ∧
      (∃ j es, x.machine = (v.machine.setJump j).recordErrors es) ∧
      (x.Fires "last" ↔ d.Settles e x) ∧
      ((∀ c, e ≠ .conditional c) → (∀ l, e ≠ .loop l) → x.Fires "last") :=
  ⟨_, _, _, _, _, detouring_left, rfl, rfl, .work, rfl, rfl, detouring_completes,
    handler_jump_fires_iff detouring_left rfl rfl .work rfl rfl detouring_completes⟩

/-- A frame may go on past the entry to which a loop leads whose handler has been dealt with. -/
theorem not_all_handler_jumps_fire :
    ¬ ∀ (v d x : Turn Unit) (st : LoopState Unit) (e : Entry Unit) (label : String)
      (fallback : Option String) (w w' : Bool), v.Occurs → v.act = .work (.exitLoop st) w →
      st.loop.jump = some label → Next v d → d.act = .work (.dispatch e fallback) w' →
      e.jump = none → Completes d x → x.Fires label := by
  intro hall
  have hfires := hall _ _ _ _ _ _ _ _ _ detouring_left rfl rfl .work rfl rfl detouring_completes
  obtain ⟨hxu, ⟨w, hxa⟩, -⟩ := detouring_completes.rejoins (detouring_left.next .work) rfl rfl
  rw [fires_iff hxu hxa] at hfires
  exact absurd hfires nofun

end Turn
end Sequencer
