import Sequencer.Proofs.Machine.Conservation
import Sequencer.Proofs.Machine.Endings

/-! The accounts of a whole run. Every value that is emitted before the run ends is found again: in
the outcome, with a loop that has dealt with its errors or has been left for a label, or with a loop
that was still going when the run ended. The errors of these last loops reach no one. -/

namespace Sequencer
variable {κ : Type}

namespace Turn

/-- The loops that are given up with their errors because they handle them, or because the frame
goes to a label. -/
def excused (u : Turn κ) : List (LoopState κ) :=
  match u.act with
  | .work (.exitLoop st) _ => u.machine.dropped (.exitLoop st)
  | .work (.goto text) _ => u.machine.dropped (.goto text)
  | _ => []

/-- The loops that are given up because the run ends: those of the frame that is finished, and those
of all frames above the root when there is a fault. -/
def forfeited (u : Turn κ) : List (LoopState κ) :=
  match u.act with
  | .work .finish _ => u.machine.active.loops
  | .work t _ => (u.machine.step t).dropped
  | _ => []

/-- A run of the sequence up to a turn: the turns before it, and what has been emitted in them or
comes with the signals taken so far. -/
inductive History (s : Sequence κ) : List (Turn κ) → List Json → Turn κ → Prop
  | start : History s [] [] ⟨Machine.start s, [], .settle⟩
  | receive {us : List (Turn κ)} {es : List Json} {u : Turn κ} (h : History s us es u)
    (idle : u.Idle) (sig : Signal) :
    History s (us ++ [u]) (es ++ sig.values) (u.machine.receive sig)
  | next {us : List (Turn κ)} {es : List Json} {u v : Turn κ} (h : History s us es u)
    (hn : Next u v) : History s (us ++ [u]) (es ++ u.emitted) v

section
variable {s : Sequence κ} {u v : Turn κ} {us : List (Turn κ)} {es : List Json}

theorem dropped_finish (m : Machine κ) : (m.step .finish).dropped = [] := by
  unfold Move.dropped
  split
  next f hf => exact absurd hf (Machine.sequel_finish_ne_fault m f)
  next => rfl

theorem pending_dropped (u : Turn κ) :
    pending u.dropped = pending u.excused + pending u.forfeited := by
  obtain ⟨m, ns, a⟩ := u
  cases a with
  | settle | call | resolve | finished => rfl
  | work t windingUp =>
    cases t with
    | finish =>
      show pending (m.active.loops ++ (m.step .finish).dropped) = 0 + pending m.active.loops
      rw [dropped_finish, List.append_nil, zero_add]
    | exitLoop | goto => exact pending_append ..
    | next | proceed | leave | complete | errors | dispatch | checkLoop =>
      exact (zero_add (pending _)).symm

theorem History.occurs (h : History s us es u) : u.Occurs := by
  induction h with
  | start => exact .start s
  | receive _ idle sig ih => exact ih.receive idle sig
  | next _ hn ih => exact ih.next hn

theorem Idle.worth (h : u.Idle) : u.worth = u.machine.held := by
  obtain ⟨m, ns, a⟩ := u
  cases a with
  | work => exact absurd h not_false
  | settle | call | resolve | finished => exact add_zero _

theorem Idle.excused (h : u.Idle) : u.excused = [] := by
  obtain ⟨m, ns, a⟩ := u
  cases a with
  | work => exact absurd h not_false
  | settle | call | resolve | finished => rfl

theorem Idle.forfeited (h : u.Idle) : u.forfeited = [] := by
  obtain ⟨m, ns, a⟩ := u
  cases a with
  | work => exact absurd h not_false
  | settle | call | resolve | finished => rfl

/-- The run is not over, or is just being ended. -/
def Open (u : Turn κ) : Prop :=
  u.machine.isFinished = false ∨ ∃ o handler, u.act = .finished o handler

theorem Occurs.unfinished_of_open (h : u.Occurs) (hn : Next u v) (hv : v.Open) :
    u.machine.isFinished = false := by
  cases hf : u.machine.isFinished with
  | false => rfl
  | true =>
    obtain ⟨ho, ha⟩ := h.idles hf
    cases hn with
    | @work m ns t windingUp =>
      obtain ⟨rfl, sig, rfl⟩ := ha
      obtain ⟨ns', ht, -⟩ := ho.turn sig
      rw [ht] at hv
      rcases hv with hv | ⟨o, handler, hv⟩
      · exact absurd (hv.symm.trans hf) nofun
      · exact absurd hv nofun
    | unpark hp => exact absurd (ho.parked.symm.trans hp) nofun
    | called | resolved => exact absurd ha not_false
    | told =>
      rcases hv with hv | ⟨o, handler, hv⟩
      · exact absurd (hv.symm.trans hf) nofun
      · exact absurd hv nofun

theorem Occurs.underway_of_next (h : u.Occurs) (hu : u.machine.isFinished = false) (hn : Next u v) :
    u.Underway := by
  rcases h.cases with hu' | ⟨hs, -⟩ | ⟨ho, -⟩
  · exact hu'
  · exact absurd hn hs.not_next
  · exact absurd (hu.symm.trans ho.finished) nofun

/-- While a run goes on nothing that was emitted is unaccounted for. -/
theorem History.worth (h : History s us es u) (hu : u.Open) :
    u.worth + pending (us.flatMap excused) + pending (us.flatMap forfeited) =
      (es : Multiset Json) := by
  induction h with
  | start => rfl
  | @receive us es u h idle sig ih =>
    have hopen : u.machine.isFinished = false := by
      rcases hu with hu | ⟨o, handler, hu⟩
      · exact hu
      · exact absurd hu nofun
    have hprev := ih (.inl hopen)
    have hnew : (u.machine.receive sig).worth = u.machine.held + sig.values :=
      congrArg (u.machine.held + ·) (Machine.carried_task sig)
    rw [idle.worth] at hprev
    simp only [List.flatMap_append, List.flatMap_singleton, pending_append, idle.excused,
      idle.forfeited, pending_nil, add_zero, hnew, ← Multiset.coe_add, ← hprev]
    abel
  | @next us es u v h hn ih =>
    have hopen := h.occurs.unfinished_of_open hn hu
    have hprev := ih (.inl hopen)
    have hstep := hn.worth (h.occurs.underway_of_next hopen hn)
    rw [pending_dropped] at hstep
    simp only [List.flatMap_append, List.flatMap_singleton, pending_append, ← Multiset.coe_add,
      ← hprev]
    calc v.worth + (pending (us.flatMap excused) + pending u.excused) +
          (pending (us.flatMap forfeited) + pending u.forfeited)
        = v.worth + (pending u.excused + pending u.forfeited) +
            (pending (us.flatMap excused) + pending (us.flatMap forfeited)) := by abel
      _ = u.worth + u.emitted +
            (pending (us.flatMap excused) + pending (us.flatMap forfeited)) := by rw [hstep]
      _ = u.worth + pending (us.flatMap excused) + pending (us.flatMap forfeited) +
            u.emitted := by abel

theorem worth_of_over {o : Outcome} {handler : Option κ} (hover : v.machine.Over)
    (ha : v.act = .finished o handler) : v.worth = (v.machine.root.errors : Multiset Json) := by
  simp [Turn.worth, ha, Act.carried, Machine.held, hover.children, Frame.held, Frame.loops,
    hover.stack]

theorem mem_pending {e : Json} {sts : List (LoopState κ)} (h : e ∈ pending sts) :
    ∃ st ∈ sts, e ∈ st.errors := by
  induction sts with
  | nil => exact absurd h (Multiset.notMem_zero e)
  | cons st sts ih =>
    rw [pending_cons, Multiset.mem_add] at h
    rcases h with h | h
    · exact ⟨st, List.mem_cons_self .., h⟩
    · obtain ⟨st', hst, he⟩ := ih h
      exact ⟨st', List.mem_cons_of_mem _ hst, he⟩

/-- When a run ends, each value that was emitted in it is in the outcome, or its loop has handled it
or was left for a label, or its loop was still on a stack when the run was ended, by `end` or by a
fault. Nothing is counted twice. -/
theorem outcome_accounts {o : Outcome} {handler : Option κ} (h : History s us es v)
    (ha : v.act = .finished o handler) :
    (o.errors : Multiset Json) + pending (us.flatMap excused) + pending (us.flatMap forfeited) =
        (es : Multiset Json) ∧
      ∀ e ∈ es, e ∈ o.errors ∨ (∃ st ∈ us.flatMap excused, e ∈ st.errors) ∨
        ∃ st ∈ us.flatMap forfeited, e ∈ st.errors := by
  have hw := h.worth (.inr ⟨o, handler, ha⟩)
  have hu : v.Underway := by
    rcases h.occurs.cases with hu | ⟨⟨hs, -⟩, -⟩ | ⟨-, sig, hs⟩
    · exact hu
    · exact absurd (ha.symm.trans hs) nofun
    · exact absurd (ha.symm.trans hs) nofun
  simp only [Underway, ha] at hu
  obtain ⟨hover, rfl⟩ := hu
  rw [worth_of_over hover ha] at hw
  rw [Outcome.errors_ofErrors]
  refine ⟨hw, fun e he => ?_⟩
  have hmem : e ∈ (es : Multiset Json) := he
  rw [← hw, Multiset.mem_add, Multiset.mem_add] at hmem
  rcases hmem with (he | he) | he
  · exact .inl he
  · exact .inr (.inl (mem_pending he))
  · exact .inr (.inr (mem_pending he))

end

/-- A loop without end around two operations; errors break nothing. -/
def forgetful : Sequence Unit :=
  { entries := [.loop ⟨none, .always,
      { entries := [.method { operation := () }, .method { operation := () }]
        breakOnError := false }, none, none, none⟩]
    breakOnError := false }

def forgetfulAtWork (iteration : List Json) (earlier : List Json) (cursor : Nat) : Machine Unit :=
  let l : Loop Unit := ⟨none, .always,
    { entries := [.method { operation := () }, .method { operation := () }]
      breakOnError := false }, none, none, none⟩
  { root := { sequence := forgetful, cursor := 1
              stack := [.loop { loop := l, ran := true, errors := earlier }] }
    children := [⟨.loopBody, { sequence := l.block, cursor, errors := iteration }⟩] }

theorem history_forgetful : ∃ us v, History forgetful us [.string "bad"] v ∧
    v.act = .finished .success none ∧ us.flatMap excused = [] ∧
    (us.flatMap forfeited).map (·.errors) = [[.string "bad"]] := by
  have h0 : History forgetful _ _ _ := .start
  have first : History forgetful _ _ ⟨forgetfulAtWork [] [] 1, [], .call { operation := () }⟩ :=
    ((((h0.receive rfl .next).next .work).next .work).next .work).next .work
  have second : History forgetful _ _
      ⟨forgetfulAtWork [.string "bad"] [] 2, [], .call { operation := () }⟩ :=
    (((first.receive trivial (.errors [.string "bad"])).next .work).next .work).next .work
  have again : History forgetful _ _ _ :=
    ((second.receive trivial .proceed).next .work).next (.unpark rfl)
  have third : History forgetful _ _
      ⟨forgetfulAtWork [] [.string "bad"] 1, [], .call { operation := () }⟩ :=
    ((again.next .work).next .work).next .work
  have ended : History forgetful _ _ _ := ((third.receive trivial .finish).next .work).next .work
  exact ⟨_, _, ended, rfl, rfl, rfl⟩

theorem forgetful_outcome_accounts : ∃ us v, History forgetful us [.string "bad"] v ∧
    v.act = .finished .success none ∧ pending (us.flatMap forfeited) = {.string "bad"} ∧
    (Outcome.success.errors : Multiset Json) + pending (us.flatMap excused) +
        pending (us.flatMap forfeited) = ([.string "bad"] : List Json) ∧
      ∀ e ∈ [Json.string "bad"], e ∈ Outcome.success.errors ∨
        (∃ st ∈ us.flatMap excused, e ∈ st.errors) ∨
        ∃ st ∈ us.flatMap forfeited, e ∈ st.errors := by
  obtain ⟨us, v, h, ha, hexcused, -⟩ := history_forgetful
  obtain ⟨hall, hmem⟩ := outcome_accounts h ha
  refine ⟨us, v, h, ha, ?_, hall, hmem⟩
  rw [hexcused] at hall
  simpa [Outcome.errors] using hall

/-- An error may be lost though its loop has neither handled it nor been left for a label. -/
theorem not_all_emitted_in_outcome :
    ¬ ∀ (s : Sequence Unit) us es v o handler, History s us es v → v.act = .finished o handler →
      ∀ e ∈ es, e ∈ o.errors ∨ ∃ st ∈ us.flatMap excused, e ∈ st.errors := by
  intro hall
  obtain ⟨us, v, h, ha, hexcused, -⟩ := history_forgetful
  rcases hall _ _ _ _ _ _ h ha _ (List.mem_singleton_self _) with he | ⟨st, hst, -⟩
  · exact absurd he List.not_mem_nil
  · rw [hexcused] at hst
    exact absurd hst List.not_mem_nil

end Turn
end Sequencer
