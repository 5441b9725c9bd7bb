import Sequencer.Engine.Step

/-! Runs of the engine: the closure of its steps, and the configurations that come up when pieces of
user code are run one after the other, each in the world that the last one left behind. -/

namespace Sequencer.Engine
variable {κ σ ε : Type}

inductive Steps (host : Host κ σ ε) : Config κ σ ε → List (Event κ ε) → Config κ σ ε → Prop
  | refl (cfg : Config κ σ ε) : Steps host cfg [] cfg
  | head {a b c : Config κ σ ε} {es es' : List (Event κ ε)} (h : step host a = .more b es)
    (rest : Steps host b es' c) : Steps host a (es ++ es') c

/-- The configurations that come up, with the events that led there. -/
inductive Reachable (host : Host κ σ ε) : Config κ σ ε → List (Event κ ε) → Prop
  | start (s : σ) (k : Code κ σ ε) : Reachable host ⟨{ host := s }, [.code k]⟩ []
  | step {cfg cfg' : Config κ σ ε} {log es : List (Event κ ε)} (h : Reachable host cfg log)
    (hs : step host cfg = .more cfg' es) : Reachable host cfg' (log ++ es)
  | returned {cfg : Config κ σ ε} {log : List (Event κ ε)} {w : World κ σ} {answer : String}
    (h : Reachable host cfg log) (hs : Engine.step host cfg = .returned w answer)
    (k : Code κ σ ε) : Reachable host ⟨w, [.code k]⟩ log
  | panicked {cfg : Config κ σ ε} {log : List (Event κ ε)} {w : World κ σ}
    (h : Reachable host cfg log) (hs : Engine.step host cfg = .panicked w)
    (k : Code κ σ ε) : Reachable host ⟨w, [.code k]⟩ log

/-- How a run of bounded length may stop at a configuration. -/
inductive Halts (host : Host κ σ ε) (b : Config κ σ ε) : Result κ σ → Prop
  | returned {w : World κ σ} {answer : String} (h : step host b = .returned w answer) :
    Halts host b (.returned w answer)
  | panicked {w : World κ σ} (h : step host b = .panicked w) : Halts host b (.panicked w)
  | unfinished : Halts host b .unfinished

section
variable {host : Host κ σ ε} {a b : Config κ σ ε} {log es : List (Event κ ε)}

theorem Reachable.steps (h : Reachable host a log) (hs : Steps host a es b) :
    Reachable host b (log ++ es) := by
  induction hs generalizing log with
  | refl => rwa [List.append_nil]
  | head hs _ ih =>
    rw [← List.append_assoc]
    exact ih (h.step hs)

/-! ### Runs of bounded length -/

theorem exists_steps_runFor (host : Host κ σ ε) (fuel : Nat) (a : Config κ σ ε)
    (log : List (Event κ ε)) :
    ∃ es b, Steps host a es b ∧ Halts host b (runFor host fuel a log).1 ∧
      (runFor host fuel a log).2 = es.reverse ++ log := by
  induction fuel generalizing a log with
  | zero => exact ⟨[], a, .refl a, .unfinished, rfl⟩
  | succ fuel ih =>
    rw [runFor]
    cases hs : step host a with
    | returned w answer => exact ⟨[], a, .refl a, .returned hs, rfl⟩
    | panicked w => exact ⟨[], a, .refl a, .panicked hs, rfl⟩
    | more b es =>
      obtain ⟨es', c, hrest, hhalts, hlog⟩ := ih b (es.reverse ++ log)
      refine ⟨es ++ es', c, .head hs hrest, hhalts, ?_⟩
      rw [hlog, List.reverse_append, List.append_assoc]

theorem Steps.runFor_eq (h : Steps host a es b) {r : Result κ σ} (hb : Halts host b r)
    (hr : r ≠ .unfinished) (log : List (Event κ ε)) :
    ∃ n, ∀ fuel, n < fuel → runFor host fuel a log = (r, es.reverse ++ log) := by
  induction h generalizing log with
  | refl a =>
    refine ⟨0, fun fuel hf => ?_⟩
    obtain ⟨fuel, rfl⟩ := Nat.exists_eq_succ_of_ne_zero (Nat.ne_of_gt hf)
    cases hb with
    | returned hs => simp only [runFor, hs, List.reverse_nil, List.nil_append]
    | panicked hs => simp only [runFor, hs, List.reverse_nil, List.nil_append]
    | unfinished => exact absurd rfl hr
  | @head a b c es es' hs _ ih =>
    obtain ⟨n, hn⟩ := ih hb (es.reverse ++ log)
    refine ⟨n + 1, fun fuel hf => ?_⟩
    obtain ⟨fuel, rfl⟩ := Nat.exists_eq_succ_of_ne_zero (Nat.ne_zero_of_lt hf)
    simp only [runFor, hs, hn fuel (Nat.lt_of_succ_lt_succ hf), List.reverse_append,
      List.append_assoc]

/-- The world that a run of bounded length leaves behind is one that the engine reaches. -/
theorem Reachable.runFor (h : Reachable host a log) {fuel : Nat} {w : World κ σ}
    (hr : (∃ answer, (Engine.runFor host fuel a []).1 = .returned w answer) ∨
      (Engine.runFor host fuel a []).1 = .panicked w) (k : Code κ σ ε) :
    Reachable host ⟨w, [.code k]⟩ (log ++ (Engine.runFor host fuel a []).2.reverse) := by
  obtain ⟨es, b, hsteps, hhalts, hlog⟩ := exists_steps_runFor host fuel a []
  rw [hlog, List.append_nil, List.reverse_reverse]
  have hb : Reachable host b (log ++ es) := h.steps hsteps
  rcases hr with ⟨answer, hr⟩ | hr
  · rw [hr] at hhalts
    cases hhalts with
    | returned hs => exact hb.returned hs k
  · rw [hr] at hhalts
    cases hhalts with
    | panicked hs => exact hb.panicked hs k

end

end Sequencer.Engine
