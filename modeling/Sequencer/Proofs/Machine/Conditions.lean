import Sequencer.Proofs.Machine.Attendance
import Sequencer.Proofs.Machine.Conservation

/-! What becomes of a conditional that is answered. An answer takes it off the stack and picks a
branch, except for errors in a sequence that they do not break: these are recorded, and the
sequence goes on while the conditional still awaits an answer. -/

namespace Sequencer
variable {κ : Type}

def Conditional.branch? (c : Conditional κ) : Signal → Option (Option (Entry κ))
  | .yes | .proceed => some c.whenTrue
  | .no | .leave | .errors _ => some c.whenFalse
  | .next | .goto _ | .finish => none

namespace Machine
variable {m : Machine κ} {c : Conditional κ}

theorem dispatch_conditional (m : Machine κ) (c : Conditional κ) (fallback : Option String) :
    m.dispatch (.conditional c) fallback =
      ((m.setJump fallback).pushConstruct (.conditional c)).invoke c.condition := rfl

theorem step_yes_pushConditional (h : m.active.finished = false) (c : Conditional κ) (p : String) :
    (m.pushConstruct (.conditional c)).step (.proceed p) = m.go (branchTask c.whenTrue) := by
  simp only [step, proceed, active_pushConstruct, h, Bool.false_eq_true, if_false,
    setStack_pushConstruct, branch_eq]

theorem step_no_pushConditional (h : m.active.finished = false) (c : Conditional κ) :
    (m.pushConstruct (.conditional c)).step .leave =
      (m.setJump none).go (branchTask c.whenFalse) := by
  simp only [step, leave, active_setJump, active_pushConstruct, h, Bool.false_eq_true, if_false,
    setStack_setJump_pushConstruct, branch_eq]

theorem recordErrors_pushConstruct (m : Machine κ) (x : Construct κ) (vs : List Json) :
    (m.pushConstruct x).recordErrors vs = (m.recordErrors vs).pushConstruct x := by
  obtain ⟨r, cs, p⟩ := m
  cases cs <;> rfl

theorem setJump_recordErrors (m : Machine κ) (vs : List Json) (j : Option String) :
    (m.recordErrors vs).setJump j = (m.setJump j).recordErrors vs := by
  obtain ⟨r, cs, p⟩ := m
  cases cs <;> rfl

theorem step_errors_pushConditional (h : m.active.finished = false) (c : Conditional κ)
    (vs : List Json) :
    (m.pushConstruct (.conditional c)).step (.errors vs true) =
      ((m.recordErrors vs).pushConstruct (.conditional c)).go
        (if m.active.sequence.breakOnError then .leave else .next) := by
  simp only [step, emit, active_pushConstruct, h, Bool.false_eq_true, if_false, Bool.true_and,
    recordErrors_pushConstruct]

theorem stack_next (m : Machine κ) : (m.step .next).machine.active.stack = m.active.stack := by
  simp only [step, next]
  split
  · rfl
  · split
    · show (m.setJump none).active.stack = m.active.stack
      rw [active_setJump]
    · rcases m.advance_cases with ⟨e, he⟩ | he
      · rw [he]
        show (m.modifyActive fun f => { f with cursor := f.cursor + 1 }).active.stack = _
        rw [active_modifyActive]
      · rw [he]
        rfl

end Machine

namespace Turn
variable {d a : Turn κ} {c : Conditional κ} {fallback : Option String} {windingUp : Bool}

theorem Next.asks (hn : Next d a)
    (hd : d.act = .work (.dispatch (.conditional c) fallback) windingUp) :
    a.machine = (d.machine.setJump fallback).pushConstruct (.conditional c) ∧
      a.act = .call c.condition := by
  have hs : (d.machine.step (.dispatch (.conditional c) fallback)).sequel.act? windingUp =
      some (.call c.condition) := by
    rw [Machine.step, Machine.dispatch_conditional]
    rfl
  rw [hn.of_act? hd hs, Machine.step, Machine.dispatch_conditional]
  exact ⟨rfl, rfl⟩

/-- Soon after a turn the frame in which a conditional was dispatched is as it was then, up to the
pending jump and errors recorded, and carries on with a branch. -/
def Resolves (d : Turn κ) (branch : Option (Entry κ)) (vs : List Json) (u : Turn κ) : Prop :=
  ∃ us v, Path u us v ∧ us.length ≤ 2 ∧ v.act = .work (branchTask branch) false ∧
    ∃ j, v.machine = (d.machine.setJump j).recordErrors vs

/-- The frame in which a conditional was dispatched goes on with the conditional on its stack. -/
def Lingers (d : Turn κ) (c : Conditional κ) (vs : List Json) (u : Turn κ) : Prop :=
  ∃ v, Next u v ∧ v.act = .work .next false ∧
    ∃ j, v.machine = ((d.machine.setJump j).recordErrors vs).pushConstruct (.conditional c)

theorem Occurs.receive_dispatched (hd : d.Occurs) {e : Entry κ}
    (ha : d.act = .work (.dispatch e fallback) windingUp) (hn : Next d a) {m : MethodCall κ}
    (hc : a.act = .call m) (s : Signal) : (a.machine.receive s).Underway := by
  have hu : a.Underway := hn.underway_of_work (hd.underway_of_dispatch ha) ha
  obtain ⟨x, ns, b⟩ := a
  obtain rfl : b = .call m := hc
  exact ⟨hu.1, hu.2, s.task_fits x, nofun⟩

theorem resolves_yes {m : Machine κ} {j : Option String} (hm : m = d.machine.setJump j)
    (hf : m.active.finished = false) {p : String} :
    Resolves d c.whenTrue [] ⟨m.pushConstruct (.conditional c), [], .work (.proceed p) false⟩ := by
  have path : Path ⟨m.pushConstruct (.conditional c), [], .work (.proceed p) false⟩ _ _ :=
    .cons .work (.refl _)
  rw [Machine.turn_of_go (Machine.step_yes_pushConditional hf c p)] at path
  exact ⟨_, _, path, Nat.le_succ 1, rfl, j, by rw [hm, Machine.recordErrors_nil]⟩

theorem resolves_no {m : Machine κ} {j : Option String} {vs : List Json}
    (hm : m = (d.machine.setJump j).recordErrors vs) (hf : m.active.finished = false) :
    Resolves d c.whenFalse vs ⟨m.pushConstruct (.conditional c), [], .work .leave false⟩ := by
  have path : Path ⟨m.pushConstruct (.conditional c), [], .work .leave false⟩ _ _ :=
    .cons .work (.refl _)
  rw [Machine.turn_of_go (Machine.step_no_pushConditional hf c)] at path
  refine ⟨_, _, path, Nat.le_succ 1, rfl, none, ?_⟩
  rw [hm, Machine.setJump_recordErrors, Machine.setJump_setJump]

theorem turn_errors {m : Machine κ} (hf : m.active.finished = false) (c : Conditional κ)
    (vs : List Json) :
    (m.pushConstruct (.conditional c)).turn (.errors vs true) false =
      ⟨(m.recordErrors vs).pushConstruct (.conditional c), [],
        .work (if m.active.sequence.breakOnError then .leave else .next) false⟩ :=
  Machine.turn_of_go (Machine.step_errors_pushConditional hf c vs) false

theorem resolves_errors {m : Machine κ} {j : Option String} (hm : m = d.machine.setJump j)
    (hf : m.active.finished = false) (hb : m.active.sequence.breakOnError = true)
    (vs : List Json) :
    Resolves d c.whenFalse vs
      ⟨m.pushConstruct (.conditional c), [], .work (.errors vs true) false⟩ := by
  have first : Next ⟨m.pushConstruct (.conditional c), [], .work (.errors vs true) false⟩ _ := .work
  rw [turn_errors hf, if_pos hb] at first
  have hf' : (m.recordErrors vs).active.finished = false := by
    rw [Machine.active_recordErrors]
    exact hf
  have path : Path _ _ _ := .cons first (.cons .work (.refl _))
  rw [Machine.turn_of_go (Machine.step_no_pushConditional hf' c)] at path
  refine ⟨_, _, path, Nat.le_refl 2, rfl, none, ?_⟩
  rw [hm, Machine.setJump_recordErrors, Machine.setJump_setJump]

theorem lingers_errors (c : Conditional κ) {m : Machine κ} {j : Option String}
    (hm : m = d.machine.setJump j)
    (hf : m.active.finished = false) (hb : m.active.sequence.breakOnError = false)
    (vs : List Json) :
    Lingers d c vs ⟨m.pushConstruct (.conditional c), [], .work (.errors vs true) false⟩ := by
  have first : Next ⟨m.pushConstruct (.conditional c), [], .work (.errors vs true) false⟩ _ := .work
  rw [turn_errors hf, hb] at first
  exact ⟨_, first, rfl, j, by rw [hm]⟩

theorem Lingers.not_resolves {u : Turn κ} {vs vs' : List Json} {branch : Option (Entry κ)}
    (h : Lingers d c vs u) (hu : u.Underway) {ws : List Json} {b w : Bool}
    (ha : u.act = .work (.errors ws b) w) : ¬ Resolves d branch vs' u := by
  obtain ⟨x, hx, hxa, j, hxm⟩ := h
  rintro ⟨us, v, path, hlen, hva, j', hvm⟩
  have hv : v.machine.active.stack = d.machine.active.stack := by
    rw [hvm, Machine.active_recordErrors, Machine.active_setJump]
    rfl
  have hne : x.machine.active.stack ≠ d.machine.active.stack := by
    rw [hxm, Machine.active_pushConstruct, Machine.active_recordErrors, Machine.active_setJump]
    exact List.cons_ne_self _ _
  have hbranch : ∀ w, (Act.work (branchTask branch) false : Act κ) ≠ .work .finish w := by
    intro w
    cases branch <;> exact nofun
  cases path with
  | refl =>
    rw [ha] at hva
    cases branch <;> exact absurd hva nofun
  | cons h₁ path =>
    obtain rfl := (hx.eq_turn ha).trans (h₁.eq_turn ha).symm
    cases path with
    | refl => exact hne hv
    | cons h₂ path =>
      cases path with
      | refl =>
        obtain ⟨hm, -⟩ := h₂.move (hx.underway_of_work hu ha) hxa fun w he =>
          hbranch w (hva.symm.trans he)
        rw [hm, Machine.stack_next] at hv
        exact hne hv
      | cons h₃ path =>
        simp only [List.length_cons] at hlen
        omega

/-- Of the answers that pick a branch all take the conditional off the stack and have the branch
follow, except for errors that do not break: then the frame goes on with the conditional on it. -/
theorem condition_resolved_iff (hd : d.Occurs)
    (ha : d.act = .work (.dispatch (.conditional c) fallback) windingUp) (hn : Next d a)
    {s : Signal} {branch : Option (Entry κ)} (hs : c.branch? s = some branch) :
    a.act = .call c.condition ∧
      (Resolves d branch s.values (a.machine.receive s) ↔
        d.machine.active.sequence.breakOnError = true ∨ ∀ vs, s ≠ .errors vs) ∧
      (d.machine.active.sequence.breakOnError = false → ∀ vs, s = .errors vs →
        Lingers d c vs (a.machine.receive s)) := by
  obtain ⟨hm, hc⟩ := hn.asks ha
  have hu := hd.receive_dispatched ha hn hc s
  have hf : (d.machine.setJump fallback).active.finished = false := by
    rw [Machine.active_setJump]
    exact (hd.underway_of_dispatch ha).active_finished ha
  have hb : (d.machine.setJump fallback).active.sequence = d.machine.active.sequence := by
    rw [Machine.active_setJump]
  rw [hm] at hu ⊢
  refine ⟨hc, ?_⟩
  cases s with
  | next | goto | finish => exact absurd hs nofun
  | yes | proceed =>
    obtain rfl := Option.some.inj hs
    exact ⟨iff_of_true (resolves_yes rfl hf) (.inr nofun), nofun⟩
  | no | leave =>
    obtain rfl := Option.some.inj hs
    have hnil : d.machine.setJump fallback = (d.machine.setJump fallback).recordErrors [] :=
      (Machine.recordErrors_nil _).symm
    exact ⟨iff_of_true (resolves_no hnil hf) (.inr nofun), nofun⟩
  | errors vs =>
    obtain rfl := Option.some.inj hs
    cases hbe : d.machine.active.sequence.breakOnError with
    | true =>
      rw [← hb] at hbe
      exact ⟨iff_of_true (resolves_errors rfl hf hbe vs) (.inl rfl), nofun⟩
    | false =>
      rw [← hb] at hbe
      have hl := lingers_errors c rfl hf hbe vs
      refine ⟨iff_of_false (hl.not_resolves hu rfl) ?_, fun _ _ he => ?_⟩
      · rintro (he | hne)
        · exact absurd he nofun
        · exact hne vs rfl
      · obtain rfl := Signal.errors.inj he
        exact hl

def lax : Sequence Unit :=
  { entries := [.conditional ⟨none, { operation := () }, some (.method { operation := () }), none⟩,
      .method { operation := () }]
    breakOnError := false }

theorem lax_asks : ∃ (d a : Turn Unit) (c : Conditional Unit), d.Occurs ∧
    d.act = .work (.dispatch (.conditional c) none) false ∧ Next d a ∧
      d.machine.active.sequence.breakOnError = false := by
  have hd : Occurs ((Machine.start lax).turn .next false) :=
    ((Occurs.start lax).receive rfl .next).next .work
  exact ⟨_, _, _, hd, rfl, .work, rfl⟩

theorem lax_condition_resolved_iff : ∃ (d a : Turn Unit) (c : Conditional Unit), d.Occurs ∧
    d.act = .work (.dispatch (.conditional c) none) false ∧ Next d a ∧
      a.act = .call c.condition ∧
      (Resolves d c.whenFalse [.string "bad"] (a.machine.receive (.errors [.string "bad"])) ↔
        d.machine.active.sequence.breakOnError = true ∨
          ∀ vs, Signal.errors [.string "bad"] ≠ .errors vs) ∧
      (d.machine.active.sequence.breakOnError = false →
        ∀ vs, Signal.errors [.string "bad"] = .errors vs →
          Lingers d c vs (a.machine.receive (.errors [.string "bad"]))) := by
  obtain ⟨d, a, c, hd, ha, hn, -⟩ := lax_asks
  exact ⟨d, a, c, hd, ha, hn, condition_resolved_iff hd ha hn rfl⟩

/-- A condition may be answered and not be resolved. -/
theorem not_all_answers_resolve :
    ¬ ∀ (d a : Turn Unit) (c : Conditional Unit) (fallback : Option String) (w : Bool) (s : Signal)
      (branch : Option (Entry Unit)), d.Occurs →
      d.act = .work (.dispatch (.conditional c) fallback) w → Next d a →
      c.branch? s = some branch → Resolves d branch s.values (a.machine.receive s) := by
  intro hall
  obtain ⟨d, a, c, hd, ha, hn, hb⟩ := lax_asks
  obtain ⟨hm, hc⟩ := hn.asks ha
  have hr := hall d a c _ _ (.errors [.string "bad"]) _ hd ha hn rfl
  have hu := hd.receive_dispatched ha hn hc (.errors [.string "bad"])
  have hf : (d.machine.setJump none).active.finished = false := by
    rw [Machine.active_setJump]
    exact (hd.underway_of_dispatch ha).active_finished ha
  have hb' : (d.machine.setJump none).active.sequence.breakOnError = false := by
    rw [Machine.active_setJump]
    exact hb
  rw [hm] at hr hu
  exact (lingers_errors c rfl hf hb' _).not_resolves hu rfl hr

end Turn
end Sequencer
