import Sequencer.Proofs.Machine.Balance
import Sequencer.Proofs.Machine.Progress

/-! Errors are conserved. Whatever a signal sets off, the errors held afterwards are those held
before and those emitted on the way, less the errors of loops given up on the way. -/

namespace Sequencer
variable {κ : Type}

def Signal.values : Signal → List Json
  | .errors values => values
  | _ => []

def Act.carried : Act κ → Multiset Json
  | .work t _ => t.carried
  | _ => 0

def Move.message (mv : Move κ) : List Json :=
  match mv.sequel with
  | .fault f => [.string f.message]
  | _ => []

/-- A fault gives up the loops of all frames above the root; those of the root follow when the run
ends. -/
def Move.dropped (mv : Move κ) : List (LoopState κ) :=
  match mv.sequel with
  | .fault _ => mv.machine.children.flatMap fun c => c.frame.loops
  | _ => []

namespace Turn

def emitted (u : Turn κ) : List Json :=
  match u.act with
  | .work t _ => t.message ++ (u.machine.step t).message
  | _ => []

def dropped (u : Turn κ) : List (LoopState κ) :=
  match u.act with
  | .work t _ => u.machine.dropped t ++ (u.machine.step t).dropped
  | _ => []

def worth (u : Turn κ) : Multiset Json := u.machine.held + u.act.carried

end Turn

namespace Machine
variable {m : Machine κ}

theorem carried_task (s : Signal) : (s.task : Task κ).carried = s.values := by cases s <;> rfl

theorem held_frames (cs : List (Child κ)) :
    (cs.map fun c => c.frame.held).sum =
      (cs.reverse.flatMap fun c => c.frame.errors : List Json) +
        pending (cs.flatMap fun c => c.frame.loops) := by
  induction cs with
  | nil => rfl
  | cons c cs ih =>
    rw [List.map_cons, List.sum_cons, ih]
    simp only [List.reverse_cons, List.flatMap_append, List.flatMap_cons, List.flatMap_nil,
      List.append_nil, pending_append, ← Multiset.coe_add, Frame.held]
    abel

theorem held_foldFault (m : Machine κ) (f : Fault) :
    (m.foldFault f).held + pending (m.children.flatMap fun c => c.frame.loops) =
      m.held + ([.string f.message] : List Json) := by
  simp only [foldFault, collapse, held, Frame.held_record, List.map_nil, List.sum_nil,
    held_frames m.children]
  abel

theorem Live.worth_turn (h : m.Live) (hp : m.parked = none) {t : Task κ} (ht : t.Fits m)
    {windingUp : Bool} (hw : windingUp = true → t = .finish) (ns : List Notice) :
    (m.turn t windingUp).worth + pending (Turn.dropped ⟨m, ns, .work t windingUp⟩) =
      Turn.worth ⟨m, ns, .work t windingUp⟩ +
        (Turn.emitted ⟨m, ns, .work t windingUp⟩ : Multiset Json) := by
  have hb := (h.balances_step t).held
  simp only [Turn.worth, Turn.emitted, Turn.dropped, pending_append, ← Multiset.coe_add]
  rcases h.turn_cases hp ht hw with ⟨a, ha, he⟩ | ⟨f, hf, he⟩
  · rw [he]
    have hc : (m.step t).message = [] ∧ (m.step t).dropped = [] ∧
        a.carried = (m.step t).sequel.carried := by
      unfold Move.message Move.dropped
      cases hq : (m.step t).sequel <;> rw [hq] at ha
      case fault => exact absurd ha nofun
      all_goals
        obtain rfl := Option.some.inj ha
        exact ⟨rfl, rfl, rfl⟩
    obtain ⟨h1, h2, h3⟩ := hc
    simp only [h1, h2, h3, pending_nil, add_zero, Multiset.coe_nil]
    rw [hb, add_assoc]
    rfl
  · rw [he]
    -- The move balances first; then the fault takes the loops of all frames above the root.
    generalize m.step t = mv at hb hf
    have hd := held_foldFault { mv.machine with parked := none } f
    have hm : mv.message = [.string f.message] := by simp only [Move.message, hf]
    have hl : mv.dropped = mv.machine.children.flatMap fun c => c.frame.loops := by
      simp only [Move.dropped, hf]
    simp only [hf, Sequel.carried, add_zero] at hb
    rw [hm, hl]
    calc (foldFault { mv.machine with parked := none } f).held + 0 + (pending (m.dropped t) +
          pending (mv.machine.children.flatMap fun c => c.frame.loops))
        = (foldFault { mv.machine with parked := none } f).held +
            pending (mv.machine.children.flatMap fun c => c.frame.loops) +
            pending (m.dropped t) := by abel
      _ = mv.machine.held + ([.string f.message] : List Json) + pending (m.dropped t) :=
          congrArg (· + pending (m.dropped t)) hd
      _ = m.held + (t.carried + t.message) + ([.string f.message] : List Json) := by
          rw [add_right_comm, hb]
      _ = m.held + t.carried + (t.message + ([.string f.message] : List Json)) := by abel

theorem root_errors_foldFault (m : Machine κ) (f : Fault) :
    m.root.errors <+: (m.foldFault f).root.errors := by
  simp only [foldFault, collapse, Frame.record, List.append_assoc]
  exact List.prefix_append ..

theorem Live.root_errors_turn (h : m.Live) (hp : m.parked = none) {t : Task κ} (ht : t.Fits m)
    {windingUp : Bool} (hw : windingUp = true → t = .finish) :
    m.root.errors <+: (m.turn t windingUp).machine.root.errors := by
  have hr := (h.balances_step t).root
  rcases h.turn_cases hp ht hw with ⟨a, -, he⟩ | ⟨f, -, he⟩
  · rwa [he]
  · rw [he]
    exact hr.trans (root_errors_foldFault { (m.step t).machine with parked := none } f)

end Machine

namespace Turn
variable {u v : Turn κ} {us : List (Turn κ)}

theorem Next.worth (hn : Next u v) (h : u.Underway) :
    v.worth + pending u.dropped = u.worth + (u.emitted : Multiset Json) := by
  cases hn with
  | work =>
    obtain ⟨hl, hp, ht, hw⟩ := h
    exact hl.worth_turn hp ht hw _
  | unpark hp => exact congrArg (_ + · + 0) (Parked.carried_task _)
  | called | resolved | told => rfl

theorem Path.worth (path : Path u us v) (h : u.Underway) :
    v.worth + pending (us.flatMap dropped) =
      u.worth + (us.flatMap emitted : List Json) := by
  induction path with
  | refl => rfl
  | @cons u x v us hn path ih =>
    have hux := hn.worth h
    rw [List.flatMap_cons, List.flatMap_cons, pending_append, ← Multiset.coe_add]
    -- Once user code has returned nothing is left to do, and the path is at its end.
    rcases hn.underway h with hx | ⟨-, hx, -⟩
    · calc v.worth + (pending u.dropped + pending (us.flatMap dropped))
          = v.worth + pending (us.flatMap dropped) + pending u.dropped := by abel
        _ = x.worth + pending u.dropped + (us.flatMap emitted : List Json) := by
            rw [ih hx, add_right_comm]
        _ = u.worth + (u.emitted + (us.flatMap emitted : List Json)) := by rw [hux, add_assoc]
    · obtain ⟨rfl, rfl⟩ := hx.path path
      simpa using hux

theorem Next.root_errors (hn : Next u v) (h : u.Underway) :
    u.machine.root.errors <+: v.machine.root.errors := by
  cases hn with
  | work =>
    obtain ⟨hl, hp, ht, hw⟩ := h
    exact hl.root_errors_turn hp ht hw
  | unpark | called | resolved | told => exact List.prefix_rfl

theorem Path.root_errors (path : Path u us v) (h : u.Underway) :
    (us ++ [v]).Pairwise fun a b => a.machine.root.errors <+: b.machine.root.errors := by
  induction path with
  | refl => exact List.pairwise_singleton ..
  | @cons u x v us hn path ih =>
    have hux := hn.root_errors h
    have hp : (us ++ [v]).Pairwise fun a b => a.machine.root.errors <+: b.machine.root.errors := by
      rcases hn.underway h with hx | ⟨-, hx, -⟩
      · exact ih hx
      · obtain ⟨rfl, rfl⟩ := hx.path path
        exact List.pairwise_singleton ..
    rw [List.cons_append, List.pairwise_cons]
    refine ⟨fun b hb => ?_, hp⟩
    obtain ⟨r, hr⟩ := path.exists_cons
    rw [hr] at hb hp
    rcases List.mem_cons.mp hb with rfl | hb
    · exact hux
    · exact hux.trans ((List.pairwise_cons.mp hp).1 b hb)

theorem Path.underway (path : Path u us v) (h : u.Underway) {b : Turn κ} (hb : b ∈ us) :
    b.Underway := by
  induction path with
  | refl => exact absurd hb List.not_mem_nil
  | @cons u x v us hn path ih =>
    rcases List.mem_cons.mp hb with rfl | hb
    · exact h
    · rcases hn.underway h with hx | ⟨-, hx, -⟩
      · exact ih hx hb
      · obtain ⟨rfl, rfl⟩ := hx.path path
        exact absurd hb List.not_mem_nil

end Turn

/-- A signal to a run that is not over: the errors held at last are those held at first and those
emitted on the way, less those of loops given up on the way. -/
theorem Machine.Reachable.errors_conserved {m : Machine κ} (h : m.Reachable)
    (hu : m.isFinished = false) (s : Signal) {us : List (Turn κ)} {v : Turn κ}
    (path : Turn.Path (m.receive s) us v) (hv : v.Settled) :
    v.machine.held + pending (us.flatMap Turn.dropped) =
        m.held + (s.values ++ us.flatMap Turn.emitted : List Json) ∧
      (us ++ [v]).Pairwise (fun a b => a.machine.root.errors <+: b.machine.root.errors) ∧
      ∀ b ∈ us, ∀ o handler, b.act = .finished o handler → o.errors = b.machine.root.errors := by
  have hw := Turn.underway_receive h.wellFormed hu s
  refine ⟨?_, path.root_errors hw, fun b hb o handler ha => ?_⟩
  · have hp := path.worth hw
    simp only [Turn.worth, hv.1, Act.carried, add_zero, Machine.receive, Machine.carried_task] at hp
    rw [hp, ← Multiset.coe_add, add_assoc]
  · have hb := path.underway hw hb
    unfold Turn.Underway at hb
    rw [ha] at hb
    rw [hb.2, Outcome.errors_ofErrors]

def lenient : Loop Unit :=
  ⟨none, .always, { entries := [.method { operation := () }] }, none, some .suppress, none⟩

def lenientAtWork : Machine Unit :=
  { root := { sequence := { entries := [.loop lenient] }, cursor := 1
              stack := [.loop { loop := lenient, ran := true }] }
    children := [⟨.loopBody, { sequence := lenient.block, cursor := 1 }⟩] }

theorem reachable_lenientAtWork : lenientAtWork.Reachable := by
  have path : Turn.Path ((Machine.start { entries := [.loop lenient] }).receive .next) _
      ⟨lenientAtWork, [], .call { operation := () }⟩ :=
    .cons .work <| .cons .work <| .cons .work <| .cons .work <| .refl _
  exact ⟨_, ((Machine.reachable_start _).receive .next).path path, trivial, rfl⟩

/-- An error that the operation emits is given up with the loop. -/
theorem lenient_errors_conserved :
    lenientAtWork.isFinished = false ∧
      ∃ us v, Turn.Path (lenientAtWork.receive (.errors [.null])) us v ∧ v.Settled ∧
        pending (us.flatMap Turn.dropped) = ([.null] : List Json) ∧
        v.machine.held + pending (us.flatMap Turn.dropped) =
          lenientAtWork.held + ([.null] ++ us.flatMap Turn.emitted : List Json) ∧
        (us ++ [v]).Pairwise (fun a b => a.machine.root.errors <+: b.machine.root.errors) ∧
        ∀ b ∈ us, ∀ o handler, b.act = .finished o handler →
          o.errors = b.machine.root.errors := by
  have path : Turn.Path (lenientAtWork.receive (.errors [.null])) _ _ :=
    .cons .work <| .cons .work <| .cons .work <| .cons .work <| .cons .work <| .cons .work <|
      .cons .told <| .refl _
  exact ⟨rfl, _, _, path, ⟨rfl, rfl⟩, rfl,
    reachable_lenientAtWork.errors_conserved rfl (.errors [.null]) path ⟨rfl, rfl⟩⟩

end Sequencer
