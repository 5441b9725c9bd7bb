import Sequencer.Proofs.Machine.Endings
import Sequencer.Proofs.Structured.Play

/-! The end of a run in its context. The outcome is recorded, the handler for it is told once, and
nothing is left to do for the run. -/

namespace Sequencer
variable {κ σ ε : Type}

namespace Engine
variable {host : Host κ σ ε} {c : ContextId} {w : World κ σ} {m m' : Machine κ} {o : Outcome}

/-- What is left to do once a run has ended: its handler is told, if there is one. -/
def afterOutcome (host : Host κ σ ε) (c : ContextId) (o : Outcome) (handler : Option κ)
    (r : List (Activation κ σ ε)) : List (Activation κ σ ε) :=
  match handler with
  | none => r
  | some h => .code (host (o.invocation h) c) :: .driver c .calling :: r

/-- The context has nothing left to do for the run. -/
structure Concluded (c : ContextId) (m : Machine κ) (o : Outcome) (w : World κ σ) : Prop where
  machine : (w.context c).machine = some m
  outcome : (w.context c).status.outcome = some o
  queue : (w.context c).queue = {}

def recorded (w : World κ σ) (c : ContextId) (m : Machine κ) (o : Outcome) : World κ σ :=
  w.setContext c { w.context c with
    machine := some m
    status := { (w.context c).status with active := none, outcome := some o } }

theorem Busy.recorded (hb : Busy c m w) (m' : Machine κ) (o : Outcome) :
    Concluded c m' o (recorded w c m' o) := by
  constructor <;> rw [Engine.recorded, World.context_setContext_self]
  exact hb.queue

theorem Concluded.context {x : World κ σ} (h : Concluded c m o w) {driving : Bool}
    (hx : x.context c = { w.context c with driving }) : Concluded c m o x := by
  constructor <;> rw [hx]
  · exact h.machine
  · exact h.outcome
  · exact h.queue

theorem Concluded.steps_idle (host : Host κ σ ε) (h : Concluded c m o w) (hp : m.parked = none)
    (r : List (Activation κ σ ε)) :
    ∃ w', Steps host ⟨w, .driver c .settle :: r⟩ [] ⟨w', r⟩ ∧ Concluded c m o w' := by
  have hsettle : step host ⟨w, .driver c .settle :: r⟩ = .more ⟨w, .driver c .poll :: r⟩ [] := by
    simp [step, drive, h.machine, hp, goOn]
  have hpoll : step host ⟨w, .driver c .poll :: r⟩ =
      .more ⟨w.setContext c { w.context c with driving := false }, r⟩ [] := by
    simp only [step, drive, h.queue]
    rfl
  exact ⟨_, .head hsettle (.head hpoll (.refl _)), h.context (World.context_setContext_self ..)⟩

theorem steps_end (host : Host κ σ ε) (hb : Busy c m w) {t : Task κ} {handler : Option κ}
    (ht : m.turn t false = ⟨m', [], .finished o handler⟩) (hp : m'.parked = none)
    (r : List (Activation κ σ ε)) :
    ∃ w' es, Steps host ⟨w, .driver c (.moving t false) :: r⟩ es
        ⟨w', afterOutcome host c o handler r⟩ ∧
      calls c es = (handler.map o.invocation).toList ∧ outcomes c es = [o] ∧
      Concluded c m' o w' := by
  have hstep : step host ⟨w, .driver c (.moving t false) :: r⟩ =
      follow host w c ⟨m', [], .finished o handler⟩ r := by
    rw [step_moving hb, ht]
  have hr := hb.recorded m' o
  cases handler with
  | some h =>
    refine ⟨recorded w c m' o, _, .head hstep (.refl _), ?_, ?_, hr⟩
    · cases o <;> simp [calls, reports, Outcome.invocation]
    · simp [outcomes, reports]
  | none =>
    obtain ⟨w', hidle, hw'⟩ := hr.steps_idle host hp r
    exact ⟨w', _, .head hstep hidle, by simp [calls, reports], by simp [outcomes, reports], hw'⟩

end Engine
end Sequencer
