import Sequencer.Proofs.Engine.Completion
import Sequencer.Proofs.Engine.Queueing
import Sequencer.Proofs.Machine.Notices

/-! Status and machine. The status of a context is all that user code gets to see of a run, and it
is written bit by bit, from the notices of each turn. At every moment it says what the machine says:
which sequence is active while the run goes on, and how it ended afterwards. -/

namespace Sequencer
variable {κ σ ε : Type}

/-- The status tells of a run what the machine of the run tells. -/
structure Status.Agrees (s : Status) (m : Machine κ) : Prop where
  active : s.active = if m.isFinished then none else some m.activeSequence
  outcome : s.outcome = if m.isFinished then some (.ofErrors m.root.errors) else none

namespace Status.Agrees
variable {s : Status} {m : Machine κ}

theorem of_unfinished (hf : m.isFinished = false) (ha : s.active = some m.activeSequence)
    (ho : s.outcome = none) : s.Agrees m := by
  refine ⟨?_, ?_⟩
  · rw [hf]
    exact ha
  · rw [hf]
    exact ho

theorem of_finished (hf : m.isFinished = true) (ha : s.active = none)
    (ho : s.outcome = some (.ofErrors m.root.errors)) : s.Agrees m := by
  refine ⟨?_, ?_⟩
  · rw [hf]
    exact ha
  · rw [hf]
    exact ho

theorem active_of_unfinished (h : s.Agrees m) (hf : m.isFinished = false) :
    s.active = some m.activeSequence := by
  have ha := h.active
  rwa [hf] at ha

theorem outcome_of_unfinished (h : s.Agrees m) (hf : m.isFinished = false) : s.outcome = none := by
  have ho := h.outcome
  rwa [hf] at ho

theorem withParked (h : s.Agrees m) (p : Option Parked) : s.Agrees { m with parked := p } :=
  ⟨h.active, h.outcome⟩

end Status.Agrees

namespace Engine

theorem applyNotices_append (s : Status) (ns ns' : List Notice) :
    applyNotices s (ns ++ ns') = applyNotices (applyNotices s ns) ns' := by
  induction ns generalizing s with
  | nil => rfl
  | cons n ns ih => cases n <;> exact ih _

theorem active_leavingNotices {s : Status} {root : Frame κ} {cs : List (Child κ)}
    (h : s.active = some (Machine.activeSequence { root, children := cs })) :
    (applyNotices s (Machine.leavingNotices root cs)).active =
      some (Machine.activeSequence { root }) := by
  induction cs generalizing s with
  | nil => exact h
  | cons c cs ih => exact ih rfl

theorem active_step {m : Machine κ} (h : m.active.finished = false) (t : Task κ) {s : Status}
    (hs : s.active = some m.activeSequence) :
    (applyNotices s (m.step t).notices).active = some (m.step t).machine.activeSequence := by
  rcases Machine.announces_step h t with ⟨hn, ha⟩ | hn
  · rw [hn, ha]
    exact hs
  · rw [hn]
    rfl

theorem active_turn {m : Machine κ} (h : m.Live) (hp : m.parked = none) {t : Task κ} (ht : t.Fits m)
    {windingUp : Bool} (hw : windingUp = true → t = .finish) {s : Status}
    (hs : s.active = some m.activeSequence) :
    (applyNotices s (m.turn t windingUp).notices).active =
      some (m.turn t windingUp).machine.activeSequence := by
  have hstep := active_step h.active_finished t hs
  rcases h.turn_cases hp ht hw with ⟨a, -, he⟩ | ⟨f, -, he⟩ <;> rw [he]
  · exact hstep
  · -- All frames above the root are left, one after the other.
    rw [applyNotices_append]
    exact active_leavingNotices hstep

end Engine

def Context.Consistent (x : Context κ) : Prop := ∀ m, x.machine = some m → x.status.Agrees m

namespace Site
open Engine
variable {x : Site κ} {y : Context κ} {i : Impulse κ}

theorem consistent_follow {m : Machine κ} {ns : List Notice} {t : Task κ} {windingUp : Bool}
    (hu : (⟨m, ns, .work t windingUp⟩ : Turn κ).Occurs) (hs : y.status.Agrees m) :
    (follow y (m.turn t windingUp)).1.context.Consistent := by
  have hv := hu.next .work
  intro m' hm'
  cases hf : m.isFinished with
  | true =>
    -- The run is over, and the signal is only reported.
    obtain ⟨ho, ha⟩ := hu.idles hf
    obtain ⟨rfl, sig, rfl⟩ := ha
    obtain ⟨ns', ht, -⟩ := ho.turn sig
    have hn := ho.active_not_mem_turn sig
    rw [ht] at hm' hn ⊢
    obtain rfl := Option.some.inj hm'
    show (applyNotices y.status ns').Agrees m
    rwa [applyNotices_of_reports hn]
  | false =>
    have hun := hu.underway_of_work hf rfl
    obtain ⟨hlive, hp, ht, hw⟩ := hun
    have hturn : (m.turn t windingUp).Underway := hlive.turn hp ht hw
    have hactive := active_turn hlive hp ht hw (hs.active_of_unfinished hf)
    have houtcome : (applyNotices y.status (m.turn t windingUp).notices).outcome = none :=
      (outcome_applyNotices ..).trans (hs.outcome_of_unfinished hf)
    generalize m.turn t windingUp = v at hm' hturn hactive houtcome ⊢
    obtain ⟨m', ns', a⟩ := v
    cases a with
    | work | settle | call | resolve =>
      obtain rfl := Option.some.inj hm'
      exact .of_unfinished hturn.1.isFinished hactive houtcome
    | finished o handler =>
      obtain ⟨hover, ho⟩ := hturn
      have hout : some o = some (.ofErrors m'.root.errors) := congrArg some ho
      cases handler with
      | none | some =>
        obtain rfl := Option.some.inj hm'
        exact .of_finished hover.finished rfl hout

theorem consistent_react (hx : x.Tracked) (hi : x.Admits i) (h : x.context.Consistent) :
    (x.react i).1.context.Consistent := by
  have htraffic := traffic_react hx hi
  by_cases hl : .launched ∈ (x.react i).2
  · obtain ⟨s, run, rfl, ha⟩ := htraffic.launch_of_launched hl
    rw [react_launch_of_accepts ha]
    intro m hm
    obtain rfl := Option.some.inj hm
    exact .of_unfinished rfl rfl rfl
  · cases hm : x.context.machine with
    | none =>
      have hnone := htraffic.machine hl
      rw [hm] at hnone
      intro m hm'
      rw [hm'] at hnone
      exact absurd hnone Bool.noConfusion
    | some m =>
      rcases react_cases hi hm hl with ⟨hm', hst, -⟩ | ⟨t, windingUp, hs, hr⟩ | ⟨-, p, hc, -⟩
      · intro m' he
        rw [hst]
        exact h m' (hm'.symm.trans he)
      · obtain ⟨⟨m', ns, a⟩, hu, rfl, ha⟩ := hx.machine m hm
        rw [hs] at ha
        obtain rfl : a = .work t windingUp := ha
        rw [hr]
        exact consistent_follow hu (h m' hm)
      · intro m' he
        rw [hc] at he ⊢
        obtain rfl := Option.some.inj he
        exact (h m hm).withParked p

end Site

namespace Engine
variable {host : Host κ σ ε} {cfg : Config κ σ ε} {log : List (Event κ ε)}

theorem Reachable.consistent (h : Reachable host cfg log) (c : ContextId) :
    (cfg.world.context c).Consistent :=
  h.induct_site (motive := fun x => x.context.Consistent) c (fun _ hm => absurd hm nofun)
    fun _ _ hx hi hc => Site.consistent_react hx hi hc

end Engine
end Sequencer
