import Sequencer.Proofs.Engine.Runs
import Sequencer.Rehearsal.Run

/-! Rehearsals go by the engine. Every world that a script comes to is one that the engine reaches,
so what holds of all reachable configurations holds of whatever a rehearsal shows. -/

namespace Sequencer
open Engine
variable {κ σ ε : Type}

/-- Whatever code comes next, it finds a world that the engine reaches. -/
def World.Reached (w : World κ σ) (host : Host κ σ ε) : Prop :=
  ∀ k : Code κ σ ε, ∃ log, Reachable host ⟨w, [.code k]⟩ log

namespace World.Reached
variable {host : Host κ σ ε} {w w' : World κ σ}

theorem store (h : w.Reached host) (s : σ) : ({ w with host := s } : World κ σ).Reached host := by
  intro k
  obtain ⟨log, hw⟩ := h (.store s k)
  exact ⟨log ++ [], hw.step rfl⟩

theorem runFor (h : w.Reached host) {code : Code κ σ ε} {fuel : Nat}
    (hr : (∃ answer, (Engine.runFor host fuel ⟨w, [.code code]⟩ []).1 = .returned w' answer) ∨
      (Engine.runFor host fuel ⟨w, [.code code]⟩ []).1 = .panicked w') : w'.Reached host := by
  intro k
  obtain ⟨log, hw⟩ := h code
  exact ⟨_, hw.runFor hr k⟩

end World.Reached

namespace Rehearsal
variable {cast : Cast} {limit : Option Nat} {w : World Handle Memory}

theorem reached_opening (cast : Cast) : opening.Reached (host cast) := by
  intro k
  have hstart : Reachable (host cast)
      ⟨{ host := opening.host }, [.code (.create fun _ => .done "")]⟩ [] := .start ..
  have hcreated : Reachable (host cast) ⟨opening, [.code (.done "")]⟩ ([] ++ []) := hstart.step rfl
  exact ⟨_, hcreated.returned rfl k⟩

theorem reached_reportStates (h : w.Reached (host cast)) :
    (reportStates w).2.Reached (host cast) := h.store _

theorem reached_playAction (h : w.Reached (host cast)) (limit : Option Nat) (a : Action) :
    (playAction cast limit w a).2.Reached (host cast) := by
  unfold playAction
  refine reached_reportStates ?_
  split
  next v answer hr => exact h.runFor (.inl ⟨answer, hr⟩)
  next v hr => exact h.runFor (.inr hr)
  next => exact h

theorem exists_reached_of_playAll (h : w.Reached (host cast)) (limit : Option Nat)
    (as : List Action) :
    ∃ ws : List (World Handle Memory), (∀ w ∈ ws, w.Reached (host cast)) ∧
      playAll cast limit w as = List.zipWith (fun w a => (playAction cast limit w a).1) ws as ∧
      ws.length = as.length := by
  induction as generalizing w with
  | nil => exact ⟨[], List.forall_mem_nil _, rfl, rfl⟩
  | cons a as ih =>
    obtain ⟨ws, hws, hforms, hlength⟩ := ih (reached_playAction h limit a)
    refine ⟨w :: ws, List.forall_mem_cons.mpr ⟨h, hws⟩, ?_, congrArg (· + 1) hlength⟩
    rw [List.zipWith_cons_cons, ← hforms]
    rfl

/-- Each answer of a rehearsal is that of its action in a world that the engine reaches. -/
theorem exists_reached_of_play (cast : Cast) (limit : Option Nat) (script : List Action) :
    ∃ ws : List (World Handle Memory), (∀ w ∈ ws, w.Reached (host cast)) ∧
      ws.length = script.length ∧ play cast limit script = .object [("steps",
        .array (List.zipWith (fun w a => (playAction cast limit w a).1) ws script))] := by
  obtain ⟨ws, hws, hforms, hlength⟩ :=
    exists_reached_of_playAll (reached_opening cast) limit script
  exact ⟨ws, hws, hlength, by rw [play, hforms]⟩

end Rehearsal
end Sequencer
