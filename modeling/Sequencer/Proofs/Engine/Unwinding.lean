import Sequencer.Proofs.Engine.Course

/-! Unwinding. A panic takes all user code and all drivers off the stack, and all it writes on the
way is that their contexts are no longer driven. What lies beneath the top of a stack is left alone
by the steps taken on it, so every run that a panic passes through is still in the state in which it
called user code. -/

namespace Sequencer
variable {κ σ ε : Type}

namespace Engine

/-! ### Unwinding -/

/-- The world when all that is on the stack has been unwound. -/
def unwound (w : World κ σ) : List (Activation κ σ ε) → World κ σ
  | [] => w
  | .code _ :: rest => unwound w rest
  | .driver c _ :: rest => unwound (w.modify c fun x => { x with driving := false }) rest

section
variable {host : Host κ σ ε} {w : World κ σ} {c : ContextId} {stage : Stage κ}
  {rest : List (Activation κ σ ε)}

theorem mem_of_mem_code {k : Code κ σ ε} (h : .driver c stage ∈ .code k :: rest) :
    .driver c stage ∈ rest := by simpa using h

theorem steps_unwound (host : Host κ σ ε) (w : World κ σ) (rest : List (Activation κ σ ε)) :
    Steps host ⟨w, .code .panic :: rest⟩ [] ⟨unwound w rest, [.code .panic]⟩ := by
  induction rest generalizing w with
  | nil => exact .refl _
  | cons a rest ih =>
    cases a with
    | code k =>
      have hs : step host ⟨w, .code .panic :: .code k :: rest⟩ =
          .more ⟨w, .code .panic :: rest⟩ [] := rfl
      exact .head hs (ih w)
    | driver c stage =>
      have hs : step host ⟨w, .code .panic :: .driver c stage :: rest⟩ =
          .more ⟨w.modify c fun x => { x with driving := false }, .code .panic :: rest⟩ [] := rfl
      exact .head hs (ih _)

theorem context_unwound_of_not_mem (h : ∀ stage, .driver c stage ∉ rest) :
    (unwound w rest).context c = w.context c := by
  induction rest generalizing w with
  | nil => rfl
  | cons a rest ih =>
    have hrest : ∀ stage, .driver c stage ∉ rest :=
      fun stage hm => h stage (List.mem_cons_of_mem _ hm)
    cases a with
    | code k => exact ih hrest
    | driver d stage =>
      have hne : c ≠ d := by
        rintro rfl
        exact h stage (List.mem_cons_self ..)
      exact (ih hrest).trans (context_modify_of_ne hne _)

theorem context_unwound (h : ∃ stage, .driver c stage ∈ rest) :
    (unwound w rest).context c = { w.context c with driving := false } := by
  induction rest generalizing w with
  | nil =>
    obtain ⟨stage, hm⟩ := h
    exact absurd hm List.not_mem_nil
  | cons a rest ih =>
    obtain ⟨stage, hm⟩ := h
    cases a with
    | code k => exact ih ⟨stage, mem_of_mem_code hm⟩
    | driver d stage' =>
      show (unwound (w.modify d _) rest).context c = _
      by_cases hrest : ∃ stage, .driver c stage ∈ rest
      · rw [ih hrest]
        by_cases hd : c = d
        · rw [hd, context_modify_self]
        · rw [context_modify_of_ne hd]
      · rw [context_unwound_of_not_mem (not_exists.mp hrest)]
        have hhead := (List.mem_cons.mp hm).resolve_right fun hm => hrest ⟨stage, hm⟩
        obtain ⟨rfl, -⟩ := Activation.driver.inj hhead
        rw [context_modify_self]

end

/-! ### The calls beneath -/

/-- How a step changes the stack below its top: the top is replaced, a driver is set to work, user
code is called, a driver is done, or control goes back to what called the user code on top. -/
inductive Restacked (host : Host κ σ ε) (w : World κ σ) (es : List (Event κ ε))
    (rest : List (Activation κ σ ε)) : List (Activation κ σ ε) → Prop
  | replace (new : Activation κ σ ε) : Restacked host w es rest (new :: rest)
  | drive (c : ContextId) (k : Code κ σ ε) :
    Restacked host w es rest (.driver c .poll :: .code k :: rest)
  | call {c : ContextId} {i : Invocation κ} {stage : Stage κ} {es' : List (Event κ ε)}
    {active : Option ActiveSequence} (he : es = es' ++ [.called c i active])
    (hm : (w.context c).machine ≠ none) :
    Restacked host w es rest (.code (host i c) :: .driver c stage :: rest)
  | leave : Restacked host w es rest rest
  | back {old new : Activation κ σ ε} {rest' : List (Activation κ σ ε)} (h : rest = old :: rest') :
    Restacked host w es rest (new :: rest')

def Restacks (host : Host κ σ ε) (rest : List (Activation κ σ ε)) : Progress κ σ ε → Prop
  | .more cfg es => Restacked host cfg.world es rest cfg.stack
  | .returned _ _ | .panicked _ => True

section
variable {host : Host κ σ ε} {w : World κ σ} {c : ContextId} {stage : Stage κ}
  {rest : List (Activation κ σ ε)}

theorem restacks_request (w : World κ σ) (rest : List (Activation κ σ ε)) (k : Code κ σ ε) :
    Restacks host rest (request w rest k) := by
  cases k with
  | done answer =>
    match rest with
    | [] => trivial
    | .code k :: rest => exact .back rfl
    | .driver c stage :: rest => cases stage <;> exact .back rfl
  | panic =>
    match rest with
    | [] => trivial
    | .code k :: rest | .driver c stage :: rest => exact .back rfl
  | post c s deferred k =>
    unfold request post
    dsimp only
    split
    · exact .replace _
    · exact .drive c k
  | launch c s k =>
    unfold request launch
    dsimp only
    split
    · exact .drive c k
    · exact .replace _
  | create | inspect | emit | load | store => exact .replace _

theorem restacks_follow (w : World κ σ) (c : ContextId) (u : Turn κ)
    (rest : List (Activation κ σ ε)) : Restacks host rest (follow host w c u rest) := by
  have called (x : Context κ) {i : Invocation κ} {stage : Stage κ} {es : List (Event κ ε)}
      (hm : x.machine ≠ none) :
      Restacks host rest (call host (w.setContext c x) c i stage rest es) :=
    .call rfl (by rwa [World.context_setContext_self])
  unfold follow
  dsimp only
  cases u.act with
  | work | settle => exact .replace _
  | call | resolve => exact called _ (Option.some_ne_none _)
  | finished o handler =>
    cases handler with
    | none => exact .replace _
    | some handler => exact called _ (Option.some_ne_none _)

theorem restacks_drive (w : World κ σ) (c : ContextId) (rest : List (Activation κ σ ε))
    (stage : Stage κ) : Restacks host rest (drive host w c rest stage) := by
  unfold drive
  cases stage with
  | calling | choosing => exact .replace _
  | poll =>
    dsimp only
    split
    · exact .leave
    · split <;> exact .replace _
  | moving t windingUp =>
    dsimp only
    split
    · exact restacks_follow ..
    · exact .replace _
  | settle =>
    dsimp only
    split <;> exact .replace _

theorem restacks_step (host : Host κ σ ε) (w : World κ σ) (a : Activation κ σ ε)
    (rest : List (Activation κ σ ε)) : Restacks host rest (step host ⟨w, a :: rest⟩) := by
  cases a with
  | code k => exact restacks_request w rest k
  | driver c stage => exact restacks_drive w c rest stage

theorem Restacked.cases_beneath {es : List (Event κ ε)}
    {stack above below : List (Activation κ σ ε)} (h : Restacked host w es rest stack)
    (hs : stack = above ++ .driver c stage :: below) (hne : above ≠ []) :
    (∃ above', rest = above' ++ .driver c stage :: below) ∨
    (w.context c).machine ≠ none ∧ ∃ i es' active, es = es' ++ [.called c i active] ∧
      stack = .code (host i c) :: .driver c stage :: below := by
  obtain ⟨a, above, rfl⟩ := List.exists_cons_of_ne_nil hne
  cases h with
  | replace new => exact .inl ⟨above, (List.cons.inj hs).2⟩
  | drive d k =>
    have hs := (List.cons.inj hs).2
    cases above with
    | nil => exact absurd (List.cons.inj hs).1 nofun
    | cons b above => exact .inl ⟨above, (List.cons.inj hs).2⟩
  | call he hm =>
    have hs' := (List.cons.inj hs).2
    cases above with
    | nil =>
      obtain ⟨hhead, rfl⟩ := List.cons.inj hs'
      obtain ⟨rfl, rfl⟩ := Activation.driver.inj hhead
      exact .inr ⟨hm, _, _, _, he, rfl⟩
    | cons b above => exact .inl ⟨above, (List.cons.inj hs').2⟩
  | leave => exact .inl ⟨a :: above, hs⟩
  | @back old new rest' h => exact .inl ⟨old :: above, by rw [h, (List.cons.inj hs).2]; rfl⟩

end

/-- A driver of the context has just called user code; what it was set to work by lies below. -/
structure Calls (host : Host κ σ ε) (c : ContextId) (i : Invocation κ) (stage : Stage κ)
    (below : List (Activation κ σ ε)) (b : Config κ σ ε) : Prop where
  stack : b.stack = .code (host i c) :: .driver c stage :: below
  called : ∃ a log es active, Reachable host a log ∧
    step host a = .more b (es ++ [.called c i active])

/-- The steps from one configuration to another while a part of the stack lies beneath. -/
inductive During (host : Host κ σ ε) (bottom : List (Activation κ σ ε)) (a : Config κ σ ε) :
    Config κ σ ε → Prop
  | refl : During host bottom a a
  | step {b b' : Config κ σ ε} {es : List (Event κ ε)} (h : During host bottom a b)
    (hs : step host b = .more b' es) {above : List (Activation κ σ ε)}
    (hb : b'.stack = above ++ bottom) (hne : above ≠ []) : During host bottom a b'

section
variable {host : Host κ σ ε} {w : World κ σ} {c : ContextId} {stage : Stage κ} {i : Impulse κ}
  {stack above below : List (Activation κ σ ε)} {b b' : Config κ σ ε} {log es : List (Event κ ε)}

theorem stage?_of_suspended (h : Suspended stack) (hm : .driver c stage ∈ stack) :
    stage? c stack = some stage := by
  induction stack using Suspended.induct with
  | case1 => exact absurd hm List.not_mem_nil
  | case2 k rest ih => exact ih h (mem_of_mem_code hm)
  | case3 d stage' k rest ih =>
    rcases List.mem_cons.mp hm with hm | hm
    · obtain ⟨rfl, rfl⟩ := Activation.driver.inj hm
      exact stage?_driver_self ..
    · have hrest := mem_of_mem_code hm
      have hd : c ≠ d := by
        rintro rfl
        exact stage?_eq_none_iff.mp h.2.1 stage hrest
      rw [stage?_driver_of_ne hd]
      exact ih h.2.2 hrest
  | case4 d stage' rest hne =>
    obtain ⟨k, r, rfl⟩ := h.exists_code
    exact absurd rfl (hne k r)

theorem stage?_beneath (h : Layered stack) (hs : stack = above ++ .driver c stage :: below)
    (hne : above ≠ []) : stage? c stack = some stage ∧ InCall stage := by
  obtain ⟨a, above, rfl⟩ := List.exists_cons_of_ne_nil hne
  have hm : Activation.driver c stage ∈ above ++ .driver c stage :: below :=
    List.mem_append_right _ (List.mem_cons_self ..)
  subst hs
  cases a with
  | code k =>
    have hst : stage? c (above ++ .driver c stage :: below) = some stage := stage?_of_suspended h hm
    exact ⟨hst, inCall_of_suspended h hst⟩
  | driver d stage' =>
    obtain ⟨k, r, hr⟩ := h.exists_code
    have h : Layered (.driver d stage' :: (above ++ .driver c stage :: below)) := h
    have hr : above ++ .driver c stage :: below = .code k :: r := hr
    rw [hr] at h hm
    have hst : stage? c r = some stage := stage?_of_suspended h.2.2 (mem_of_mem_code hm)
    have hd : c ≠ d := by
      rintro rfl
      exact absurd (h.2.1.symm.trans hst) nofun
    refine ⟨?_, inCall_of_suspended h.2.2 hst⟩
    show stage? c (.driver d stage' :: (above ++ .driver c stage :: below)) = some stage
    rw [hr, stage?_driver_of_ne hd]
    exact hst

theorem react_of_waiting {x : Site κ} (hx : x.Tracked) (hi : x.Admits i) (hs : x.stage = some stage)
    (hc : InCall stage) (hs' : (x.react i).1.stage = some stage) :
    (x.react i).1.context.machine = x.context.machine ∧
      (x.react i).1.context.status = x.context.status := by
  have hd : x.context.driving = true := by
    rw [show x.context.driving = x.stage.isSome from hx.driving, hs]
    rfl
  cases i with
  | user d n =>
    cases d with
    | post | panic => exact ⟨rfl, rfl⟩
    | launch s =>
      rw [Site.react_launch_of_not_accepts (by simp [accepts, hd])]
      exact ⟨rfl, rfl⟩
    | answer text =>
      -- The driver goes on, so its stage is another one.
      have hsettle : (x.react (.user (.answer text) n)).1.stage = some .settle := by
        simp only [Site.react, hs]
        cases stage <;> rfl
      obtain rfl := Option.some.inj (hsettle.symm.trans hs')
      exact absurd hc not_false
  | drive =>
    obtain ⟨stage', hst, hn⟩ := hi
    obtain rfl := Option.some.inj (hs.symm.trans hst)
    exact absurd hc hn

theorem step_beneath (h : b.Tracked) (hs : step host b = .more b' es)
    {above' : List (Activation κ σ ε)} (hb : b.stack = above ++ .driver c stage :: below)
    (hne : above ≠ []) (hb' : b'.stack = above' ++ .driver c stage :: below) (hne' : above' ≠ []) :
    (b'.world.context c).machine = (b.world.context c).machine ∧
      (b'.world.context c).status = (b.world.context c).status := by
  obtain ⟨hst, hc⟩ := stage?_beneath h.layers hb hne
  obtain ⟨hst', -⟩ := stage?_beneath (tracked_of_more h hs).layers hb' hne'
  rcases site_step h hs c with ⟨-, hx, -⟩ | ⟨i, -, -, hadmits, hr⟩
  · have hctx : b'.world.context c = b.world.context c := congrArg Site.context hx
    rw [hctx]
    exact ⟨rfl, rfl⟩
  · have hkeep := react_of_waiting (x := site c b) (h.contexts c) hadmits hst hc
    rw [hr] at hkeep
    exact hkeep hst'

/-- Every driver beneath the stack has made a call that is still going on, and its run is in the
state in which it made that call. -/
theorem exists_call (h : Reachable host b log) (hb : b.stack = above ++ .driver c stage :: below)
    (hne : above ≠ []) :
    ∃ a i, Calls host c i stage below a ∧ During host (.driver c stage :: below) a b ∧
      (a.world.context c).machine ≠ none ∧
      (b.world.context c).machine = (a.world.context c).machine ∧
      (b.world.context c).status = (a.world.context c).status := by
  induction h generalizing above with
  | start s k =>
    obtain ⟨a, above, rfl⟩ := List.exists_cons_of_ne_nil hne
    exact absurd (List.cons.inj hb).2.symm (by simp)
  | @step b b' log es h hs ih =>
    have hrestacks := hs
    obtain ⟨w, stack⟩ := b
    cases stack with
    | nil => exact absurd h.tracked.1.layers not_false
    | cons top rest =>
      have hr : Restacks host rest (Engine.step host ⟨w, top :: rest⟩) := restacks_step ..
      rw [hs] at hr
      rcases hr.cases_beneath hb hne with ⟨above', hrest⟩ | ⟨hm, i, es', active, he, hstack⟩
      · have hold : (⟨w, top :: rest⟩ : Config κ σ ε).stack =
            (top :: above') ++ .driver c stage :: below := congrArg (top :: ·) hrest
        obtain ⟨a, i, hcall, hduring, hm, hmachine, hstatus⟩ := ih hold (List.cons_ne_nil _ _)
        obtain ⟨hmachine', hstatus'⟩ :=
          step_beneath h.tracked.1 hs hold (List.cons_ne_nil _ _) hb hne
        exact ⟨a, i, hcall, hduring.step hs hb hne, hm, hmachine'.trans hmachine,
          hstatus'.trans hstatus⟩
      · subst he
        exact ⟨b', i, ⟨hstack, _, _, _, _, h, hs⟩, .refl, hm, rfl, rfl⟩
  | returned h hs k ih | panicked h hs k ih =>
    obtain ⟨a, above, rfl⟩ := List.exists_cons_of_ne_nil hne
    exact absurd (List.cons.inj hb).2.symm (by simp)

end

end Engine
end Sequencer
