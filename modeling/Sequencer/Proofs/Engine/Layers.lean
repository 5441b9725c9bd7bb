import Sequencer.Proofs.Engine.Runs
import Sequencer.Proofs.Machine.Progress

/-! What the stack of activations says about the runs. A context is driven by one driver at most;
every driver but the one on top waits for user code to return. A run that is not driven has come
to rest, and the stage of a driver tells which turn its run has reached. -/

namespace Sequencer
variable {κ σ ε : Type}

namespace Engine

def stage? (c : ContextId) : List (Activation κ σ ε) → Option (Stage κ)
  | [] => none
  | .code _ :: rest => stage? c rest
  | .driver d stage :: rest => if d = c then some stage else stage? c rest

def InCall : Stage κ → Prop
  | .calling | .choosing => True
  | .poll | .moving _ _ | .settle => False

/-- What may lie beneath user code: drivers that have called it, each on top of the code that set
it to work, and no two of them on one context. -/
def Suspended : List (Activation κ σ ε) → Prop
  | [] => True
  | .code _ :: rest => Suspended rest
  | .driver c stage :: .code _ :: rest => InCall stage ∧ stage? c rest = none ∧ Suspended rest
  | .driver _ _ :: _ => False

/-- User code is on top, or a driver that does not wait for any. -/
def Layered : List (Activation κ σ ε) → Prop
  | .code _ :: rest => Suspended rest
  | .driver c stage :: .code _ :: rest => ¬ InCall stage ∧ stage? c rest = none ∧ Suspended rest
  | _ => False

/-- Which turn a run has reached while its driver is at a stage, or while it has none. -/
def Attends : Option (Stage κ) → Turn κ → Prop
  | none, u | some .poll, u => u.Idle
  | some (.moving t windingUp), u => u.act = .work t windingUp
  | some .settle, u => u.act = .settle
  | some .calling, u => (∃ c, u.act = .call c) ∨ ∃ o handler, u.act = .finished o handler
  | some .choosing, u => ∃ r ps, u.act = .resolve r ps

theorem Attends.idle_of_inCall {stage : Stage κ} {u : Turn κ} (ha : Attends (some stage) u)
    (hc : InCall stage) : u.Idle := by
  cases stage with
  | poll | moving | settle => exact absurd hc not_false
  | calling => rcases ha with ⟨o, ha⟩ | ⟨o, handler, ha⟩ <;> simp [Turn.Idle, ha]
  | choosing =>
    obtain ⟨r, ps, ha⟩ := ha
    simp [Turn.Idle, ha]

end Engine

structure Context.Tracked (x : Context κ) (stage : Option (Stage κ)) : Prop where
  driving : x.driving = stage.isSome
  machine : ∀ m, x.machine = some m →
    ∃ u : Turn κ, u.Occurs ∧ u.machine = m ∧ Engine.Attends stage u

structure Config.Tracked (cfg : Config κ σ ε) : Prop where
  layers : Engine.Layered cfg.stack
  contexts : ∀ c, (cfg.world.context c).Tracked (Engine.stage? c cfg.stack)

namespace Engine
variable {w w' : World κ σ} {c : ContextId} {stage stage' : Stage κ}
  {rest : List (Activation κ σ ε)} {k k' : Code κ σ ε}

theorem stage?_driver_self (c : ContextId) (stage : Stage κ) (rest : List (Activation κ σ ε)) :
    stage? c (.driver c stage :: rest) = some stage := if_pos rfl

theorem stage?_driver_of_ne {c d : ContextId} (h : d ≠ c) (stage : Stage κ)
    (rest : List (Activation κ σ ε)) : stage? d (.driver c stage :: rest) = stage? d rest :=
  if_neg h.symm

theorem stage?_eq_none_iff {stack : List (Activation κ σ ε)} :
    stage? c stack = none ↔ ∀ stage, .driver c stage ∉ stack := by
  induction stack with
  | nil => exact ⟨fun _ _ => List.not_mem_nil, fun _ => rfl⟩
  | cons a stack ih =>
    cases a with
    | code k => simpa [stage?] using ih
    | driver d stage =>
      by_cases hd : d = c
      · subst hd
        rw [stage?_driver_self]
        exact ⟨nofun, fun h => absurd (List.mem_cons_self ..) (h stage)⟩
      · rw [stage?_driver_of_ne (Ne.symm hd), ih]
        simp [Ne.symm hd]

theorem context_setContext_of_ne {c d : ContextId} (h : d ≠ c) (x : Context κ) :
    (w.setContext c x).context d = w.context d := by
  rw [World.context_setContext, if_neg h.symm]

theorem context_modify_self (f : Context κ → Context κ) :
    (w.modify c f).context c = f (w.context c) := World.context_setContext_self ..

theorem context_modify_of_ne {c d : ContextId} (h : d ≠ c) (f : Context κ → Context κ) :
    (w.modify c f).context d = w.context d := context_setContext_of_ne h _

theorem Layered.exists_code (h : Layered (.driver c stage :: rest)) :
    ∃ k r, rest = .code k :: r := by
  match rest with
  | .code k :: r => exact ⟨k, r, rfl⟩
  | [] | .driver _ _ :: _ => exact absurd h not_false

theorem Suspended.exists_code (h : Suspended (.driver c stage :: rest)) :
    ∃ k r, rest = .code k :: r := by
  match rest with
  | .code k :: r => exact ⟨k, r, rfl⟩
  | [] | .driver _ _ :: _ => exact absurd h not_false

section
variable {stack stack' : List (Activation κ σ ε)}

theorem tracked_of_ne (h : Config.Tracked ⟨w, stack⟩) (hl : Layered stack')
    (hs : ∀ d, d ≠ c → stage? d stack' = stage? d stack)
    (hw : ∀ d, d ≠ c → w'.context d = w.context d)
    (hx : (w'.context c).Tracked (stage? c stack')) : Config.Tracked ⟨w', stack'⟩ := by
  refine ⟨hl, fun d => ?_⟩
  by_cases hdc : d = c
  · exact hdc ▸ hx
  · rw [hs d hdc, hw d hdc]
    exact h.contexts d

theorem tracked_of_contexts (h : Config.Tracked ⟨w, stack⟩) (hw : w'.contexts = w.contexts) :
    Config.Tracked ⟨w', stack⟩ := by
  refine ⟨h.layers, fun d => ?_⟩
  have hd : w'.context d = w.context d := by rw [World.context, hw, World.context]
  exact hd.symm ▸ h.contexts d

end

theorem tracked_start (s : σ) (k : Code κ σ ε) :
    Config.Tracked (⟨{ host := s }, [.code k]⟩ : Config κ σ ε) :=
  ⟨trivial, fun _ => ⟨rfl, nofun⟩⟩

theorem tracked_code (h : Config.Tracked ⟨w, .code k :: rest⟩) (k' : Code κ σ ε) :
    Config.Tracked ⟨w, .code k' :: rest⟩ := ⟨h.layers, h.contexts⟩

theorem tracked_uncode (h : Config.Tracked ⟨w, .code k :: .code k' :: rest⟩) :
    Config.Tracked (⟨w, .code k' :: rest⟩ : Config κ σ ε) := ⟨h.layers, h.contexts⟩

theorem tracked_restage (h : Config.Tracked ⟨w, .driver c stage :: .code k :: rest⟩)
    (hs : ¬ InCall stage') (hw : ∀ d, d ≠ c → w'.context d = w.context d)
    (hx : (w'.context c).Tracked (some stage')) :
    Config.Tracked ⟨w', .driver c stage' :: .code k :: rest⟩ :=
  tracked_of_ne h ⟨hs, h.layers.2⟩
    (fun d hd => by rw [stage?_driver_of_ne hd, stage?_driver_of_ne hd]) hw
    (by rwa [stage?_driver_self])

theorem tracked_call (h : Config.Tracked ⟨w, .driver c stage :: .code k :: rest⟩)
    (hs : InCall stage') (hw : ∀ d, d ≠ c → w'.context d = w.context d)
    (hx : (w'.context c).Tracked (some stage')) (k' : Code κ σ ε) :
    Config.Tracked ⟨w', .code k' :: .driver c stage' :: .code k :: rest⟩ :=
  tracked_of_ne h ⟨hs, h.layers.2⟩
    (fun d hd => by rw [stage?, stage?_driver_of_ne hd, stage?_driver_of_ne hd]) hw
    (by rwa [stage?, stage?_driver_self])

theorem tracked_return (h : Config.Tracked ⟨w, .code k' :: .driver c stage :: .code k :: rest⟩)
    (hs : ¬ InCall stage') (hw : ∀ d, d ≠ c → w'.context d = w.context d)
    (hx : (w'.context c).Tracked (some stage')) :
    Config.Tracked ⟨w', .driver c stage' :: .code k :: rest⟩ :=
  tracked_of_ne h ⟨hs, h.layers.2⟩
    (fun d hd => by rw [stage?, stage?_driver_of_ne hd, stage?_driver_of_ne hd]) hw
    (by rwa [stage?_driver_self])

theorem tracked_leave (h : Config.Tracked ⟨w, .driver c stage :: .code k :: rest⟩)
    (hw : ∀ d, d ≠ c → w'.context d = w.context d) (hx : (w'.context c).Tracked none) :
    Config.Tracked (⟨w', .code k :: rest⟩ : Config κ σ ε) :=
  tracked_of_ne h h.layers.2.2 (fun _ hd => (stage?_driver_of_ne hd ..).symm) hw
    (by rwa [stage?, h.layers.2.1])

theorem tracked_unwind (h : Config.Tracked ⟨w, .code k' :: .driver c stage :: .code k :: rest⟩)
    (hw : ∀ d, d ≠ c → w'.context d = w.context d) (hx : (w'.context c).Tracked none) :
    Config.Tracked (⟨w', .code k' :: .code k :: rest⟩ : Config κ σ ε) :=
  tracked_of_ne h h.layers.2.2
    (fun d hd => by rw [stage?, stage?, stage?, stage?_driver_of_ne hd, stage?]) hw
    (by rwa [stage?, stage?, h.layers.2.1])

theorem tracked_drive (h : Config.Tracked (⟨w, .code k :: rest⟩ : Config κ σ ε))
    (hd : (w.context c).driving = false) (hs : ¬ InCall stage)
    (hw : ∀ d, d ≠ c → w'.context d = w.context d) (hx : (w'.context c).Tracked (some stage)) :
    Config.Tracked ⟨w', .driver c stage :: .code k :: rest⟩ := by
  have hc := (h.contexts c).driving
  rw [hd] at hc
  have hn : stage? c rest = none :=
    Option.not_isSome_iff_eq_none.mp (by simpa [stage?] using hc.symm)
  exact tracked_of_ne h ⟨hs, hn, h.layers⟩ (fun _ hd => stage?_driver_of_ne hd ..) hw
    (by rwa [stage?_driver_self])

end Engine
end Sequencer
