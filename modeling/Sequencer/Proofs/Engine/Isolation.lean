import Sequencer.Proofs.Engine.Course

/-! Launching. A context takes a new run or is left as it is; and a run that it takes owes nothing
to what was there before: what becomes of it is decided by its sequence and by what is done to the
context from then on. -/

namespace Sequencer
variable {κ σ ε : Type}

namespace Site
open Engine

def anonymous (x : Site κ) : Site κ := ⟨x.context.anonymous, x.stage⟩

theorem applyNotices_withRun (s : Status) (run : Option Nat) (ns : List Notice) :
    applyNotices { s with run := run } ns = { applyNotices s ns with run := run } := by
  induction ns generalizing s with
  | nil => rfl
  | cons n ns ih =>
    cases n with
    | active a => exact ih { s with active := some a }
    | report d => exact ih s

theorem follow_anonymous (x : Context κ) (u : Turn κ) :
    (follow x.anonymous u).1.anonymous = (follow x u).1.anonymous ∧
      (follow x.anonymous u).2 = (follow x u).2 := by
  obtain ⟨m, ns, a⟩ := u
  have hs : applyNotices x.anonymous.status ns = { applyNotices x.status ns with run := none } :=
    applyNotices_withRun x.status none ns
  cases a with
  | work | settle | call | resolve =>
    simp only [follow, hs, and_true]
    rfl
  | finished o handler =>
    simp only [follow, hs]
    cases handler <;> exact ⟨rfl, rfl⟩

theorem drive_anonymous (x : Context κ) (stage : Stage κ) :
    (drive x.anonymous stage).1.anonymous = (drive x stage).1.anonymous ∧
      (drive x.anonymous stage).2 = (drive x stage).2 := by
  cases stage with
  | poll =>
    cases hq : x.queue.pop? with
    | none =>
      rw [drive_poll_empty hq, drive_poll_empty (x := x.anonymous) hq]
      exact ⟨rfl, rfl⟩
    | some p =>
      obtain ⟨s, q⟩ := p
      cases hm : x.machine with
      | some m =>
        rw [drive_poll_applied hq hm, drive_poll_applied (x := x.anonymous) hq hm]
        exact ⟨rfl, rfl⟩
      | none =>
        rw [drive_poll_dropped hq hm, drive_poll_dropped (x := x.anonymous) hq hm]
        exact ⟨rfl, rfl⟩
  | moving t windingUp =>
    cases hm : x.machine with
    | some m =>
      rw [drive_moving hm, drive_moving (x := x.anonymous) hm]
      exact follow_anonymous x _
    | none =>
      rw [drive_moving_none hm, drive_moving_none (x := x.anonymous) hm]
      exact ⟨rfl, rfl⟩
  | settle =>
    cases hp : x.machine.bind (·.parked) with
    | some p =>
      rw [drive_settle_parked hp, drive_settle_parked (x := x.anonymous) hp]
      exact ⟨rfl, rfl⟩
    | none =>
      rw [drive_settle_rest hp, drive_settle_rest (x := x.anonymous) hp]
      exact ⟨rfl, rfl⟩
  | calling | choosing => exact ⟨rfl, rfl⟩

theorem react_anonymous (x : Site κ) {i j : Impulse κ} (hij : i.doing? = j.doing?) :
    (x.anonymous.react i).1.anonymous = (x.react j).1.anonymous ∧
      (x.anonymous.react i).2 = (x.react j).2 := by
  obtain ⟨x, stage⟩ := x
  cases i with
  | drive =>
    cases j with
    | user => exact absurd hij nofun
    | drive =>
      cases stage with
      | none => exact ⟨rfl, rfl⟩
      | some stage => exact drive_anonymous x stage
  | user d n =>
    cases j with
    | drive => exact absurd hij nofun
    | user d' n' =>
      obtain rfl : d = d' := Option.some.inj hij
      cases d with
      | post | panic => exact ⟨rfl, rfl⟩
      | answer text =>
        rcases stage with _ | stage
        · exact ⟨rfl, rfl⟩
        · cases stage <;> exact ⟨rfl, rfl⟩
      | launch s =>
        by_cases ha : accepts x = true
        · rw [react_launch_of_accepts (x := ⟨x, stage⟩) ha,
            react_launch_of_accepts (x := anonymous ⟨x, stage⟩) ha]
          exact ⟨rfl, rfl⟩
        · rw [react_launch_of_not_accepts (x := ⟨x, stage⟩) ha,
            react_launch_of_not_accepts (x := anonymous ⟨x, stage⟩) ha]
          exact ⟨rfl, rfl⟩

theorem react_alike {x y : Site κ} (h : x.anonymous = y.anonymous) {i j : Impulse κ}
    (hij : i.doing? = j.doing?) :
    (x.react i).1.anonymous = (y.react j).1.anonymous ∧ (x.react i).2 = (y.react j).2 := by
  have hx := x.react_anonymous (i := i) (j := i) rfl
  have hy := y.react_anonymous hij
  rw [h] at hx
  exact ⟨hx.1.symm.trans hy.1, hx.2.symm.trans hy.2⟩

/-- User code has its habits: what it does to a context is what they say of all that it has done
there and that has happened there before. -/
def Follows (habits : List (Doing κ) → List (Happening κ) → Doing κ) :
    List (Doing κ) → List (Happening κ) → Site κ → List (Impulse κ) → Prop
  | _, _, _, [] => True
  | ds, hs, x, .user d n :: is => d = habits ds hs ∧
      Follows habits (ds ++ [d]) (hs ++ (x.react (.user d n)).2) (x.react (.user d n)).1 is
  | ds, hs, x, .drive :: is => Follows habits ds (hs ++ (x.react .drive).2) (x.react .drive).1 is

theorem admits_user {x : Site κ} {d : Doing κ} {n : Nat} (h : x.Admits (.user d n)) :
    x.Rests := by
  cases d with
  | post | launch => exact h
  | answer | panic =>
    obtain ⟨stage, hs, hc⟩ := h
    intro stage' hs'
    exact Option.some.inj (hs.symm.trans hs') ▸ hc

theorem admits_drive {x : Site κ} (h : x.Admits .drive) : ¬ x.Rests := by
  obtain ⟨stage, hs, hc⟩ := h
  exact fun hr => hc (hr stage hs)

theorem rests_congr {x y : Site κ} (h : x.anonymous = y.anonymous) : x.Rests ↔ y.Rests := by
  have hs : x.anonymous.stage = y.anonymous.stage := congrArg Site.stage h
  rw [Rests, Rests, show x.stage = y.stage from hs]

/-- One course of things has got as far as another, or further; where the shorter one rests and as
much has been done, it is no shorter. -/
def Behind (x y : Site κ) (is js : List (Impulse κ)) : Prop :=
  (x.play is).2 <+: (y.play js).2 ∧
    ((x.play is).1.Rests → (is.filterMap Impulse.doing?).length =
        (js.filterMap Impulse.doing?).length →
      (x.play is).2 = (y.play js).2 ∧ (x.play is).1.anonymous = (y.play js).1.anonymous)

theorem behind_nil {x y : Site κ} {js : List (Impulse κ)} (h : x.anonymous = y.anonymous)
    (hj : y.Admissible js) : Behind x y [] js := by
  refine ⟨List.nil_prefix, fun hr hl => ?_⟩
  cases js with
  | nil => exact ⟨rfl, h⟩
  | cons j js =>
    cases j with
    | user => exact absurd hl (Nat.zero_ne_add_one _)
    | drive => exact absurd ((rests_congr h).mp hr) (admits_drive hj.1)

theorem Behind.cons {x y : Site κ} {i j : Impulse κ} {is js : List (Impulse κ)}
    (hij : i.doing? = j.doing?) (hh : (x.react i).2 = (y.react j).2)
    (h : Behind (x.react i).1 (y.react j).1 is js) : Behind x y (i :: is) (j :: js) := by
  refine ⟨?_, fun hr hl => ?_⟩
  · simp only [play, hh]
    exact List.prefix_append_right_inj _ |>.mpr h.1
  · have hl' : (is.filterMap Impulse.doing?).length = (js.filterMap Impulse.doing?).length := by
      rw [List.filterMap_cons, List.filterMap_cons, hij] at hl
      cases hd : j.doing? <;> simpa [hd] using hl
    obtain ⟨hp, ha⟩ := h.2 hr hl'
    exact ⟨by simp only [play, hh, hp], ha⟩

/-- Where user code follows the same habits, contexts that are alike go the same way. -/
theorem behind_of_follows {habits : List (Doing κ) → List (Happening κ) → Doing κ}
    {is js : List (Impulse κ)} {x y : Site κ} {ds : List (Doing κ)} {hs : List (Happening κ)}
    (h : x.anonymous = y.anonymous) (hi : x.Admissible is) (hj : y.Admissible js)
    (hfi : Follows habits ds hs x is) (hfj : Follows habits ds hs y js) :
    Behind x y is js ∨ Behind y x js is := by
  induction is generalizing js x y ds hs with
  | nil => exact .inl (behind_nil h hj)
  | cons i is ih =>
    cases js with
    | nil => exact .inr (behind_nil h.symm hi)
    | cons j js =>
      have key (hij : i.doing? = j.doing?)
          (hf : ∃ ds', Follows habits ds' (hs ++ (x.react i).2) (x.react i).1 is ∧
            Follows habits ds' (hs ++ (y.react j).2) (y.react j).1 js) :
          Behind x y (i :: is) (j :: js) ∨ Behind y x (j :: js) (i :: is) := by
        obtain ⟨ha, hh⟩ := react_alike h hij
        obtain ⟨ds', hfi, hfj⟩ := hf
        rw [← hh] at hfj
        exact (ih ha hi.2 hj.2 hfi hfj).imp (Behind.cons hij hh) (Behind.cons hij.symm hh.symm)
      -- Either user code is at work on both sides or neither.
      cases i with
      | drive =>
        cases j with
        | drive => exact key rfl ⟨ds, hfi, hfj⟩
        | user d n =>
          exact absurd ((rests_congr h).mpr (admits_user hj.1)) (admits_drive hi.1)
      | user d n =>
        cases j with
        | drive => exact absurd ((rests_congr h).mp (admits_user hi.1)) (admits_drive hj.1)
        | user d' n' =>
          obtain rfl : d = d' := hfi.1.trans hfj.1.symm
          exact key rfl ⟨_, hfi.2, hfj.2⟩

end Site

namespace Engine
variable {host : Host κ σ ε} {w : World κ σ} {c : ContextId} {s : Sequence κ}
  {rest : List (Activation κ σ ε)} {k : Code κ σ ε} {log : List (Event κ ε)}

/-- No driver of the context is on the stack, and the context has no unfinished run. -/
def Available (c : ContextId) (w : World κ σ) (stack : List (Activation κ σ ε)) : Prop :=
  (∀ stage, .driver c stage ∉ stack) ∧
    ∀ m, (w.context c).machine = some m → m.isFinished = true

def doings (c : ContextId) (ds : List (ContextId × Impulse κ)) : List (Doing κ) :=
  (share c ds).filterMap Impulse.doing?

/-- What becomes of one context is what becomes of another, run numbers aside, for as long as the
same habits are followed. -/
def GoAlike {σ' ε' : Type} (host : Host κ σ ε) (c : ContextId) (a : Config κ σ ε)
    (host' : Host κ σ' ε') (c' : ContextId) (a' : Config κ σ' ε') : Prop :=
  ∀ habits ds es b ds' es' b', Course host a ds es b → Course host' a' ds' es' b' →
    (site c a).Follows habits [] [] (share c ds) →
    (site c' a').Follows habits [] [] (share c' ds') →
    (happenings c es <+: happenings c' es' ∨ happenings c' es' <+: happenings c es) ∧
    ((site c b).Rests → (site c' b').Rests → (doings c ds).length = (doings c' ds').length →
      happenings c es = happenings c' es' ∧ (site c b).anonymous = (site c' b').anonymous)

theorem accepts_iff_available (h : Config.Tracked ⟨w, .code k :: rest⟩) :
    accepts (w.context c) = true ↔ Available c w rest := by
  have hs : (w.context c).driving = false ↔ ∀ stage, .driver c stage ∉ rest := by
    rw [← stage?_eq_none_iff, (h.contexts c).driving, Option.isSome_eq_false_iff,
      Option.isNone_iff_eq_none]
    rfl
  rw [accepts, Available, ← hs, Bool.and_eq_true, Bool.not_eq_true']
  cases (w.context c).machine with
  | none => simp
  | some m => simp

theorem goAlike_of_anonymous {σ' ε' : Type} {host' : Host κ σ' ε'} {c' : ContextId}
    {a : Config κ σ ε} {a' : Config κ σ' ε'} (ha : a.Tracked) (ha' : a'.Tracked)
    (h : (site c a).anonymous = (site c' a').anonymous) : GoAlike host c a host' c' a' := by
  intro habits ds es b ds' es' b' hc hc' hf hf'
  obtain ⟨hp, hi⟩ := hc.play_share ha c
  obtain ⟨hp', hi'⟩ := hc'.play_share ha' c'
  have hb := Site.behind_of_follows h hi hi' hf hf'
  simp only [Site.Behind, hp, hp'] at hb
  rcases hb with ⟨hpre, heq⟩ | ⟨hpre, heq⟩
  · exact ⟨.inl hpre, fun hr _ hl => heq hr hl⟩
  · exact ⟨.inr hpre, fun _ hr hl => (heq hr hl.symm).imp Eq.symm Eq.symm⟩

/-- A launch is taken up if no driver of the context is on the stack and the context has no
unfinished run; otherwise it is reported and changes nothing. If it is taken up, then whatever there
was before, panics included, the context is where the same launch brings a new one, and goes the
same way. -/
theorem launch_isolated (h : Reachable host ⟨w, .code (.launch c s k) :: rest⟩ log) :
    (¬ Available c w rest → step host ⟨w, .code (.launch c s k) :: rest⟩ =
      .more ⟨w, .code k :: rest⟩ [.reported c (.startIgnored .contextBusy)]) ∧
    (Available c w rest → ∃ a, step host ⟨w, .code (.launch c s k) :: rest⟩ =
        .more a [.launched c (w.started + 1), .posted c .next false] ∧
      ∀ (σ' ε' : Type) (host' : Host κ σ' ε') w' c' k' rest' log',
        Reachable host' ⟨w', .code (.launch c' s k') :: rest'⟩ log' → w'.context c' = {} →
        ∃ a', step host' ⟨w', .code (.launch c' s k') :: rest'⟩ =
            .more a' [.launched c' (w'.started + 1), .posted c' .next false] ∧
          (site c a).anonymous = (site c' a').anonymous ∧ GoAlike host c a host' c' a') := by
  have ht := h.tracked.1
  refine ⟨fun hn => ?_, fun hav => ?_⟩
  · have ha := mt (accepts_iff_available ht).mp hn
    simp only [step, request, launch, ha, Bool.false_eq_true, if_false]
    rfl
  · obtain ⟨a, hs, hx⟩ := step_launch host ((accepts_iff_available ht).mpr hav) s k rest
    refine ⟨a, hs, fun σ' ε' host' w' c' k' rest' log' h' hnew => ?_⟩
    have ha' : accepts (w'.context c') = true := by
      rw [hnew]
      rfl
    obtain ⟨a', hs', hx'⟩ := step_launch host' ha' s k' rest'
    have hxx : (site c a).anonymous = (site c' a').anonymous := by
      rw [hx, hx']
      rfl
    exact ⟨a', hs', hxx, goAlike_of_anonymous (h.step hs).tracked.1 (h'.step hs').tracked.1 hxx⟩

def careless : Host Unit Unit Unit
  | .success _, c => .post c .next false .panic
  | _, _ => .done ""

/-- The run before has left a signal in the queue, which the new run never gets to see. -/
theorem launch_isolated_after_panic :
    ∃ w log, Reachable careless ⟨w, [.code (.launch 0 humming (.done ""))]⟩ log ∧
      (w.context 0).queue.immediate = [.next] ∧
      Available 0 w ([] : List (Activation Unit Unit Unit)) ∧
      ∃ a a', step careless ⟨w, [.code (.launch 0 humming (.done ""))]⟩ =
          .more a [.launched 0 2, .posted 0 .next false] ∧
        step mute ⟨{ host := () }, [.code (.launch 5 humming (.done ""))]⟩ =
          .more a' [.launched 5 1, .posted 5 .next false] ∧
        (site 0 a).anonymous = (site 5 a').anonymous ∧ GoAlike careless 0 a mute 5 a' := by
  have h0 : Reachable careless _ _ := .start () (.launch 0 { onSuccess := some () } (.done ""))
  -- Up to the call of the handler.
  have h5 : Reachable careless _ _ :=
    ((((h0.step rfl).step rfl).step rfl).step rfl).step rfl
  -- It posts and panics, and the panic reaches the outermost code.
  have h8 : Reachable careless _ _ := ((h5.step rfl).step rfl).step rfl
  have h : Reachable careless _ _ := h8.panicked rfl (.launch 0 humming (.done ""))
  have hav : Available 0 _ ([] : List (Activation Unit Unit Unit)) :=
    (accepts_iff_available h.tracked.1).mp rfl
  obtain ⟨a, hs, hnew⟩ := (launch_isolated h).2 hav
  obtain ⟨a', hs', hx, halike⟩ := hnew Unit Unit mute { host := () } 5 (.done "") [] []
    (.start () _) rfl
  exact ⟨_, _, h, rfl, hav, a, a', hs, hs', hx, halike⟩

end Engine
end Sequencer
