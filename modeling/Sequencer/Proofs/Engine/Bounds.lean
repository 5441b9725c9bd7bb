import Sequencer.Proofs.Engine.Safety
import Sequencer.Proofs.Machine.Bounds
import Sequencer.Proofs.Program.Built

/-! The size of runs. Loops, jumps and signals may go on for ever, and operations may answer with
whatever they like: no run ever needs more frames than its sequence is high, and no frame ever
has more constructs on its stack than entries in its sequence. -/

namespace Sequencer
variable {κ σ ε : Type}

namespace Engine
variable {host : Host κ σ ε} {cfg : Config κ σ ε} {log : List (Event κ ε)} {c : ContextId}
  {m : Machine κ}

theorem Reachable.bounded (h : Reachable host cfg log)
    (hm : (cfg.world.context c).machine = some m) : m.Bounded := by
  obtain ⟨u, hu, rfl, -⟩ := (h.tracked.1.contexts c).machine m hm
  exact hu.bounded.machine

/-- At every moment of every run of a built sequence: each frame has at most as many constructs on
its stack as it has run entries, and has run no more entries than its sequence has; each construct
belongs to an entry of that sequence, and each frame above the root runs a sequence nested in that
of the frame below. So the frames are never more than the sequence is high. -/
theorem runs_bounded (h : Reachable host cfg log) (hm : (cfg.world.context c).machine = some m)
    (hb : m.root.sequence.Built) :
    (∀ f ∈ m.frames, f.stack.length ≤ f.cursor ∧ f.cursor ≤ f.sequence.entries.length ∧
      ∀ x ∈ f.stack, f.sequence.Has x.entry) ∧
    m.frames.IsChain (fun f g => g.sequence.Nests f.sequence) ∧
    m.children.length ≤ m.root.sequence.height := by
  have hs : m.Bounded := h.bounded hm
  refine ⟨fun f hf => ?_, Machine.Stacked.isChain hs, hs.length_children_le⟩
  obtain ⟨hf, henc⟩ := Machine.Stacked.frames hs f hf
  have hindexed : f.sequence.Indexed := hb.indexed f.sequence henc
  exact ⟨hf.stack, hf.cursor hindexed, hf.occurs⟩

def drone : Loop Unit :=
  ⟨none, .always, { entries := [.method { operation := () }] }, none, none, none⟩

def droning : Sequence Unit := { entries := [.loop drone] }

theorem built_droning : droning.Built := by
  have hadd : ((Sequence.withRegistry {}).add (.object
      { control := some (.flag true), block := some (.operation ()) })).1 = droning := by
    simp [Sequence.add, Declaration.normalize, Clauses.normalize, Clauses.repetition,
      LoopControl.ofClause, Scope.block, Scope.branch, Scope.failure, Scope.body]
    rfl
  rw [← hadd]
  refine .add (.empty {}) _ fun t ht => ?_
  -- The declaration has no ready-made sequence in any of its clauses.
  cases ht with
  | block h hd =>
    obtain rfl := Option.some.inj h
    exact absurd hd Declaration.not_holds_operation
  | control h => exact absurd h (by simp)
  | method h | condition h | whenTrue h | whenFalse h | onSuccess h | onError h | error h
  | sequence h => exact absurd h.symm (Option.some_ne_none _)

def droningAtWork : Machine Unit :=
  { root := { sequence := droning, cursor := 1, stack := [.loop { loop := drone, ran := true }] }
    children := [⟨.loopBody, { sequence := drone.block, cursor := 1 }⟩] }

/-- While the operation is called in the body of the loop there is no room for more. -/
theorem droning_bounded_in_call :
    ∃ cfg log, Reachable mute cfg log ∧ (cfg.world.context 0).machine = some droningAtWork ∧
      droningAtWork.root.sequence.Built ∧
      (∀ f ∈ droningAtWork.frames, f.stack.length ≤ f.cursor ∧
        f.cursor ≤ f.sequence.entries.length ∧ ∀ x ∈ f.stack, f.sequence.Has x.entry) ∧
      droningAtWork.frames.IsChain (fun f g => g.sequence.Nests f.sequence) ∧
      droningAtWork.children.length ≤ droningAtWork.root.sequence.height ∧
      droningAtWork.root.sequence.height = 1 := by
  have h0 : Reachable mute _ _ := .start () (.launch 0 droning (.done ""))
  have h3 : Reachable mute _ _ := ((h0.step rfl).step rfl).step rfl
  have h : Reachable mute _ _ := ((h3.step rfl).step rfl).step rfl
  have hm : _ = some droningAtWork := rfl
  obtain ⟨hframes, hchain, hheight⟩ := runs_bounded (c := 0) h hm built_droning
  exact ⟨_, _, h, hm, built_droning, hframes, hchain, hheight, rfl⟩

end Engine
end Sequencer
