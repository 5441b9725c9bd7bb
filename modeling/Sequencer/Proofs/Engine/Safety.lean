import Sequencer.Proofs.Engine.Tracking

/-! Safety of runs. Whenever user code is at work, and between any two signals, every machine is
well formed. No loop is ever missed, and every run that faults can be wound up. -/

namespace Sequencer
variable {κ σ ε : Type}

namespace Turn
variable {u : Turn κ}

theorem Occurs.wellFormed (h : u.Occurs) (idle : u.Idle) : u.machine.WellFormed :=
  Machine.Reachable.wellFormed ⟨u, h, idle, rfl⟩

theorem exists_report_of_fault {m : Machine κ} {t : Task κ} {f : Fault} (windingUp : Bool)
    (h : (m.step t).sequel = .fault f) :
    ∃ d, .report d ∈ (m.turn t windingUp).notices ∧
      (d = .endingFailed f ∨ d = .faultAfterCompletion f ∨ d = .runFaulted f) := by
  simp only [Machine.turn, h]
  cases windingUp with
  | true => exact ⟨.endingFailed f, by simp, .inl rfl⟩
  | false =>
    unfold Machine.abort
    simp only [Bool.false_eq_true, if_false]
    split
    · exact ⟨.faultAfterCompletion f, by simp, .inr (.inl rfl)⟩
    · exact ⟨.runFaulted f, by simp, .inr (.inr rfl)⟩

theorem Occurs.fault_ne_noLoop (h : u.Occurs) {t : Task κ} {windingUp : Bool}
    (ha : u.act = .work t windingUp) : (u.machine.step t).sequel ≠ .fault .noLoop := by
  obtain ⟨m, ns, a⟩ := u
  obtain rfl : a = .work t windingUp := ha
  intro hf
  obtain ⟨d, hd, he⟩ := exists_report_of_fault windingUp hf
  -- The turn that follows would report it, and no turn reports such a thing.
  have hb := (h.next .work).not_broken hd
  rcases he with rfl | rfl | rfl
  · exact hb (.inl ⟨_, rfl⟩)
  · exact hb (.inr (.inr rfl))
  · exact hb (.inr (.inl rfl))

end Turn

namespace Engine
variable {c : ContextId} {stage : Stage κ} {stack : List (Activation κ σ ε)}

/-- A signal is being applied to the run of a context, and no user code is at work. -/
def Applying (c : ContextId) : List (Activation κ σ ε) → Prop
  | .driver d (.moving _ _) :: _ | .driver d .settle :: _ => d = c
  | _ => False

theorem inCall_of_suspended (h : Suspended stack) (hs : stage? c stack = some stage) :
    InCall stage := by
  induction stack using Suspended.induct with
  | case1 => exact absurd hs nofun
  | case2 k rest ih => exact ih h hs
  | case3 d stage' k rest ih =>
    rw [stage?] at hs
    split at hs
    · obtain rfl := Option.some.inj hs
      exact h.1
    · exact ih h.2.2 hs
  | case4 d stage' rest hne =>
    obtain ⟨k, r, rfl⟩ := h.exists_code
    exact absurd rfl (hne k r)

theorem inCall_or_top (h : Layered stack) (hs : stage? c stack = some stage) :
    InCall stage ∨ ∃ rest, stack = .driver c stage :: rest := by
  match stack with
  | [] => exact absurd hs nofun
  | .code k :: rest => exact .inl (inCall_of_suspended h hs)
  | .driver d stage' :: rest =>
    obtain ⟨k, rest, rfl⟩ := h.exists_code
    rw [stage?] at hs
    split at hs
    next hdc =>
      obtain rfl := Option.some.inj hs
      exact .inr ⟨_, by rw [hdc]⟩
    next => exact .inl (inCall_of_suspended h.2.2 hs)

theorem Attends.idle {u : Turn κ} (ha : Attends (stage? c stack) u) (h : Layered stack)
    (hc : ¬ Applying c stack) : u.Idle := by
  cases hs : stage? c stack with
  | none => rwa [hs] at ha
  | some stage =>
    rw [hs] at ha
    have ht := inCall_or_top h hs
    cases stage with
    | poll => exact ha
    | moving t windingUp =>
      obtain ⟨rest, rfl⟩ := ht.resolve_left not_false
      exact absurd rfl hc
    | settle =>
      obtain ⟨rest, rfl⟩ := ht.resolve_left not_false
      exact absurd rfl hc
    | calling | choosing => exact ha.idle_of_inCall trivial

/-- Whatever signals are posted and whatever user code does, panics included: in every turn of a run
at which the machine rests or user code is called the machine is well formed, and so are the
machines of all contexts at all times but while a signal is applied to them; no move looks for a
loop in vain, and winding up a run never fails. -/
theorem runs_wellFormed (host : Host κ σ ε) :
    (∀ u : Turn κ, u.Occurs → (u.Idle → u.machine.WellFormed) ∧
      (∀ t windingUp, u.act = .work t windingUp →
        (u.machine.step t).sequel ≠ .fault .noLoop) ∧
      ∀ d, .report d ∈ u.notices → ¬ d.Broken) ∧
    ∀ cfg log, Reachable host cfg log →
      (∀ c m, (cfg.world.context c).machine = some m → ¬ Applying c cfg.stack → m.WellFormed) ∧
      (∀ c m t windingUp rest, (cfg.world.context c).machine = some m →
        cfg.stack = .driver c (.moving t windingUp) :: rest →
        (m.step t).sequel ≠ .fault .noLoop) ∧
      ∀ c d, .reported c d ∈ log → ¬ d.Broken := by
  refine ⟨fun u hu => ⟨hu.wellFormed, fun t windingUp => hu.fault_ne_noLoop, ?_⟩,
    fun cfg log h => ?_⟩
  · exact fun d => hu.not_broken
  obtain ⟨ht, hlog⟩ := h.tracked
  refine ⟨fun c m hm hc => ?_, fun c m t windingUp rest hm hs => ?_, hlog⟩
  · obtain ⟨u, hu, rfl, ha⟩ := (ht.contexts c).machine m hm
    exact hu.wellFormed (ha.idle ht.layers hc)
  · obtain ⟨w, stack⟩ := cfg
    obtain rfl : stack = .driver c (.moving t windingUp) :: rest := hs
    obtain ⟨u, hu, rfl, ha⟩ := turn_of_tracked ht hm
    exact hu.fault_ne_noLoop ha

def mute : Host Unit Unit Unit := fun _ _ => .done ""

theorem humming_wellFormed_in_call :
    ∃ cfg log, Reachable mute cfg log ∧
      (∃ m, (cfg.world.context 0).machine = some m ∧
        m.children.map (·.role) = [.loopBody] ∧ m.WellFormed) ∧
      ∀ c d, .reported c d ∈ log → ¬ d.Broken := by
  have h0 : Reachable mute _ _ := .start () (.launch 0 humming (.done ""))
  -- Up to the call of the operation in the loop.
  have h4 : Reachable mute _ _ := (((h0.step rfl).step rfl).step rfl).step rfl
  have h : Reachable mute _ _ := ((((h4.step rfl).step rfl).step rfl).step rfl).step rfl
  have hs := (runs_wellFormed mute).2 _ _ h
  exact ⟨_, _, h, ⟨_, rfl, rfl, hs.1 0 _ rfl not_false⟩, hs.2.2⟩

end Engine
end Sequencer
