import Mathlib.Logic.Function.Basic
import Sequencer.Proofs.Engine.Isolation

/-! User code that keeps to its context. It acts on no other context, asks for nothing but the
status of its own, and has a part of the state to itself. Where such code alone is at work, two
worlds that agree about the context stay in agreement step by step, and everything else is left as
it is. -/

namespace Sequencer
variable {κ τ ε : Type}

/-- User code for one context, over a part of the state that belongs to it. -/
inductive OwnCode (κ τ ε : Type) where
  | done (answer : String)
  | panic
  | post (signal : Signal) (deferred : Bool) (rest : OwnCode κ τ ε)
  | launch (sequence : Sequence κ) (rest : OwnCode κ τ ε)
  | inspect (rest : Status → OwnCode κ τ ε)
  | emit (note : ε) (rest : OwnCode κ τ ε)
  | load (rest : τ → OwnCode κ τ ε)
  | store (part : τ) (rest : OwnCode κ τ ε)

/-- The code as it runs for a context among others. It does not see the number of a run, which tells
how many runs there have been elsewhere. -/
def OwnCode.code (c : ContextId) : OwnCode κ τ ε → Code κ (ContextId → τ) ε
  | .done answer => .done answer
  | .panic => .panic
  | .post s deferred k => .post c s deferred (k.code c)
  | .launch s k => .launch c s (k.code c)
  | .inspect k => .inspect c fun s => (k { s with run := none }).code c
  | .emit n k => .emit n (k.code c)
  | .load k => .load fun parts => (k (parts c)).code c
  | .store t k => .load fun parts => .store (Function.update parts c t) (k.code c)

/-- All user code that is called for the context keeps to it. -/
def Engine.Confines (host : Host κ (ContextId → τ) ε) (c : ContextId)
    (program : Invocation κ → OwnCode κ τ ε) : Prop :=
  ∀ i, host i c = (program i).code c

theorem Context.anonymous_eq_iff {x y : Context κ} :
    x.anonymous = y.anonymous ↔ ∃ run, y = { x with status := { x.status with run := run } } := by
  constructor
  · intro h
    obtain ⟨q, driving, m, ⟨run, active, outcome⟩⟩ := x
    obtain ⟨q', driving', m', ⟨run', active', outcome'⟩⟩ := y
    simp only [anonymous, Context.mk.injEq, Status.mk.injEq, true_and] at h
    obtain ⟨rfl, rfl, rfl, rfl, rfl⟩ := h
    exact ⟨run', rfl⟩
  · rintro ⟨run, rfl⟩
    rfl

namespace World
variable {w w' v v' : World κ (ContextId → τ)} {c d : ContextId} {x y : Context κ}

/-- The worlds are the same for the context, run numbers aside, and for its part of the state. -/
structure Agrees (c : ContextId) (w w' : World κ (ContextId → τ)) : Prop where
  context : (w.context c).anonymous = (w'.context c).anonymous
  part : w.host c = w'.host c

/-- From the first world to the second nothing has changed but the context and its part of the
state. -/
structure Spares (c : ContextId) (w v : World κ (ContextId → τ)) : Prop where
  context (d : ContextId) (hd : d ≠ c) : v.context d = w.context d
  part (d : ContextId) (hd : d ≠ c) : v.host d = w.host d

theorem Agrees.refl (c : ContextId) (w : World κ (ContextId → τ)) : w.Agrees c w := ⟨rfl, rfl⟩

theorem Agrees.symm (h : w.Agrees c w') : w'.Agrees c w := ⟨h.context.symm, h.part.symm⟩

theorem Agrees.trans (h : w.Agrees c w') (h' : w'.Agrees c v) : w.Agrees c v :=
  ⟨h.context.trans h'.context, h.part.trans h'.part⟩

theorem Spares.refl (c : ContextId) (w : World κ (ContextId → τ)) : w.Spares c w :=
  ⟨fun _ _ => rfl, fun _ _ => rfl⟩

theorem Spares.trans (h : w.Spares c w') (h' : w'.Spares c v) : w.Spares c v :=
  ⟨fun d hd => (h'.context d hd).trans (h.context d hd),
    fun d hd => (h'.part d hd).trans (h.part d hd)⟩

theorem Spares.agrees (h : w.Spares c v) (hd : d ≠ c) : w.Agrees d v :=
  ⟨by rw [h.context d hd], (h.part d hd).symm⟩

theorem Agrees.setContext (h : w.Agrees c w') (hxy : x.anonymous = y.anonymous) :
    (w.setContext c x).Agrees c (w'.setContext c y) := by
  refine ⟨?_, h.part⟩
  rw [context_setContext_self, context_setContext_self, hxy]

theorem spares_setContext (c : ContextId) (w : World κ (ContextId → τ)) (x : Context κ) :
    w.Spares c (w.setContext c x) :=
  ⟨fun _ hd => Engine.context_setContext_of_ne hd x, fun _ _ => rfl⟩

end World

inductive Activation.Own (c : ContextId) : Activation κ (ContextId → τ) ε → Prop
  | code (k : OwnCode κ τ ε) : Own c (.code (k.code c))
  | driver (stage : Stage κ) : Own c (.driver c stage)

/-- The same activations of the context, over worlds that agree about it. A part of the state that
is about to be stored comes with the rest of the state, which may not be the same. -/
inductive Config.Abreast (c : ContextId) :
    Config κ (ContextId → τ) ε → Config κ (ContextId → τ) ε → Prop
  | own {w w' : World κ (ContextId → τ)} {stack : List (Activation κ (ContextId → τ) ε)}
    (hw : w.Agrees c w') (hs : ∀ a ∈ stack, a.Own c) : Abreast c ⟨w, stack⟩ ⟨w', stack⟩
  | storing {w w' : World κ (ContextId → τ)} {stack : List (Activation κ (ContextId → τ) ε)}
    (hw : w.Agrees c w') (hs : ∀ a ∈ stack, a.Own c) (t : τ) (k : OwnCode κ τ ε) :
    Abreast c ⟨w, .code (.store (Function.update w.host c t) (k.code c)) :: stack⟩
      ⟨w', .code (.store (Function.update w'.host c t) (k.code c)) :: stack⟩

/-- From the world given, two steps lead on abreast or end in agreement. The same happens on both,
and at the context alone. -/
inductive Progress.Abreast (c : ContextId) (w : World κ (ContextId → τ)) :
    Progress κ (ContextId → τ) ε → Progress κ (ContextId → τ) ε → Prop
  | more {a b : Config κ (ContextId → τ) ε} {es es' : List (Event κ ε)} (h : a.Abreast c b)
    (hw : w.Spares c a.world) (hs : List (Happening κ))
    (hes : es.filterMap Event.place = hs.map (c, ·))
    (hes' : es'.filterMap Event.place = hs.map (c, ·)) : Abreast c w (.more a es) (.more b es')
  | returned {v v' : World κ (ContextId → τ)} (h : v.Agrees c v') (hw : w.Spares c v)
    (answer : String) : Abreast c w (.returned v answer) (.returned v' answer)
  | panicked {v v' : World κ (ContextId → τ)} (h : v.Agrees c v') (hw : w.Spares c v) :
    Abreast c w (.panicked v) (.panicked v')

namespace Engine
variable {host : Host κ (ContextId → τ) ε} {program : Invocation κ → OwnCode κ τ ε}
  {c : ContextId} {w w' v v' : World κ (ContextId → τ)} {x y : Context κ}
  {stack rest : List (Activation κ (ContextId → τ) ε)} {es es' : List (Event κ ε)}
  {hs : List (Happening κ)} {stage : Stage κ}

theorem own_cons {a : Activation κ (ContextId → τ) ε} (ha : a.Own c) (h : ∀ a ∈ rest, a.Own c) :
    ∀ b ∈ a :: rest, b.Own c := List.forall_mem_cons.mpr ⟨ha, h⟩

theorem abreast_goOn (hs : List (Happening κ)) (hv : v.Agrees c v') (hw : w.Spares c v)
    (hown : ∀ a ∈ stack, a.Own c) (hes : es.filterMap Event.place = hs.map (c, ·))
    (hes' : es'.filterMap Event.place = hs.map (c, ·)) :
    Progress.Abreast c w (goOn v stack es) (goOn v' stack es') :=
  .more (.own hv hown) hw hs hes hes'

theorem abreast_quiet (hw : w.Agrees c w') (hown : ∀ a ∈ stack, a.Own c) :
    Progress.Abreast c w (goOn w stack []) (goOn w' stack []) :=
  abreast_goOn [] hw (.refl c w) hown rfl rfl

theorem abreast_set (hs : List (Happening κ)) (hw : w.Agrees c w') (hxy : x.anonymous = y.anonymous)
    (hown : ∀ a ∈ stack, a.Own c) (hes : es.filterMap Event.place = hs.map (c, ·)) :
    Progress.Abreast c w (goOn (w.setContext c x) stack es) (goOn (w'.setContext c y) stack es) :=
  abreast_goOn hs (hw.setContext hxy) (w.spares_setContext c x) hown hes hes

/-! ### Requests -/

section Requests
variable (hw : w.Agrees c w') (hown : ∀ a ∈ rest, a.Own c)
include hw hown

theorem abreast_post (s : Signal) (deferred : Bool) :
    Progress.Abreast c w (post w c s deferred rest) (post w' c s deferred rest) := by
  obtain ⟨run, hrun⟩ := Context.anonymous_eq_iff.mp hw.context
  unfold post
  rw [hrun]
  refine abreast_set [.posted s deferred] hw rfl ?_ rfl
  split
  · exact hown
  · exact own_cons (.driver .poll) hown

theorem abreast_launch (s : Sequence κ) :
    Progress.Abreast c w (launch w c s rest) (launch w' c s rest) := by
  obtain ⟨run, hrun⟩ := Context.anonymous_eq_iff.mp hw.context
  have haccepts : accepts (w'.context c) = accepts (w.context c) := by
    rw [hrun]
    rfl
  unfold launch
  dsimp only
  rw [haccepts, hrun]
  split
  · -- The runs may get different numbers, which agreement does not look at.
    have hstarted : World.Agrees c { w with started := w.started + 1 }
        { w' with started := w'.started + 1 } := ⟨hw.context, hw.part⟩
    refine abreast_goOn [.launched, .posted .next false] (hstarted.setContext rfl) ?_
      (own_cons (.driver .poll) hown) rfl rfl
    exact ⟨fun d hd => context_setContext_of_ne hd _, fun _ _ => rfl⟩
  · exact abreast_goOn [.reported (.startIgnored .contextBusy)] hw (.refl c w) hown rfl rfl

theorem abreast_answer (answer : String) :
    Progress.Abreast c w (request w rest (.done answer)) (request w' rest (.done answer)) := by
  obtain ⟨run, hrun⟩ := Context.anonymous_eq_iff.mp hw.context
  match rest, hown with
  | [], _ => exact .returned hw (.refl c w) answer
  | .code k :: rest, hown => exact abreast_quiet hw hown
  | .driver d stage :: rest, hown =>
    obtain ⟨hd, hrest⟩ := List.forall_mem_cons.mp hown
    cases hd with
    | driver stage =>
      have hsettle : ∀ a ∈ .driver c .settle :: rest, a.Own c := own_cons (.driver .settle) hrest
      cases stage with
      | choosing =>
        unfold request World.modify
        dsimp only
        rw [hrun]
        exact abreast_set [] hw rfl hsettle rfl
      | _ => exact abreast_quiet hw hsettle

theorem abreast_panic :
    Progress.Abreast c w (request w rest .panic) (request w' rest .panic) := by
  obtain ⟨run, hrun⟩ := Context.anonymous_eq_iff.mp hw.context
  have hpanic {stack : List (Activation κ (ContextId → τ) ε)} (h : ∀ a ∈ stack, a.Own c) :
      ∀ a ∈ .code .panic :: stack, a.Own c := own_cons (.code .panic) h
  match rest, hown with
  | [], _ => exact .panicked hw (.refl c w)
  | .code k :: rest, hown =>
    have hrest := (List.forall_mem_cons.mp hown).2
    exact abreast_quiet hw (hpanic hrest)
  | .driver d stage :: rest, hown =>
    obtain ⟨hd, hrest⟩ := List.forall_mem_cons.mp hown
    cases hd with
    | driver stage =>
      unfold request World.modify
      dsimp only
      rw [hrun]
      exact abreast_set [] hw rfl (hpanic hrest) rfl

theorem abreast_request (k : OwnCode κ τ ε) :
    Progress.Abreast c w (request w rest (k.code c)) (request w' rest (k.code c)) := by
  have hcode (k : OwnCode κ τ ε) : ∀ a ∈ .code (k.code c) :: rest, a.Own c :=
    own_cons (.code k) hown
  cases k with
  | done answer => exact abreast_answer hw hown answer
  | panic => exact abreast_panic hw hown
  | post s deferred k => exact abreast_post hw (hcode k) s deferred
  | launch s k => exact abreast_launch hw (hcode k) s
  | inspect k =>
    have hstatus : (w'.context c).anonymous.status = (w.context c).anonymous.status := by
      rw [hw.context]
    have hnext := hcode (k (w.context c).anonymous.status)
    refine .more ?_ (.refl c w) [] rfl rfl
    show Config.Abreast c ⟨w, .code ((k (w.context c).anonymous.status).code c) :: rest⟩
      ⟨w', .code ((k (w'.context c).anonymous.status).code c) :: rest⟩
    rw [hstatus]
    exact .own hw hnext
  | emit n k => exact abreast_goOn [] hw (.refl c w) (hcode k) rfl rfl
  | load k =>
    refine .more ?_ (.refl c w) [] rfl rfl
    show Config.Abreast c ⟨w, .code ((k (w.host c)).code c) :: rest⟩
      ⟨w', .code ((k (w'.host c)).code c) :: rest⟩
    rw [← hw.part]
    exact .own hw (hcode _)
  | store t k => exact .more (.storing hw hown t k) (.refl c w) [] rfl rfl

end Requests

theorem abreast_store (hw : w.Agrees c w') (hown : ∀ a ∈ rest, a.Own c) (t : τ)
    (k : OwnCode κ τ ε) :
    Progress.Abreast c w
      (request w rest (.store (Function.update w.host c t) (k.code c)))
      (request w' rest (.store (Function.update w'.host c t) (k.code c))) := by
  refine abreast_goOn [] ⟨hw.context, ?_⟩ ⟨fun _ _ => rfl, fun d hd => ?_⟩
    (own_cons (.code k) hown) rfl rfl
  · show Function.update w.host c t c = Function.update w'.host c t c
    rw [Function.update_self, Function.update_self]
  · exact Function.update_of_ne hd t w.host

/-! ### Drivers -/

section Drivers
variable (hk : Confines host c program) (hw : w.Agrees c w') (hown : ∀ a ∈ rest, a.Own c)
include hk hw hown

theorem abreast_call (hxy : x.anonymous = y.anonymous) (i : Invocation κ) (stage : Stage κ)
    (hes : es.filterMap Event.place = hs.map (c, ·)) :
    Progress.Abreast c w (call host (w.setContext c x) c i stage rest es)
      (call host (w'.setContext c y) c i stage rest es) := by
  have hactive : y.status.active = x.status.active := by
    show y.anonymous.status.active = x.anonymous.status.active
    rw [hxy]
  have hplace : (es ++ [Event.called c i x.status.active]).filterMap Event.place =
      (hs ++ [Happening.called i x.status.active]).map (c, ·) := by
    rw [List.filterMap_append, hes, List.map_append]
    rfl
  unfold call
  rw [hk i, World.context_setContext_self, World.context_setContext_self, hactive]
  exact abreast_set _ hw hxy (own_cons (.code (program i)) (own_cons (.driver stage) hown)) hplace

theorem abreast_follow (u : Turn κ) :
    Progress.Abreast c w (follow host w c u rest) (follow host w' c u rest) := by
  obtain ⟨run, hrun⟩ := Context.anonymous_eq_iff.mp hw.context
  obtain ⟨m, ns, a⟩ := u
  have hstatus : applyNotices { (w.context c).status with run := run } ns =
      { applyNotices (w.context c).status ns with run := run } :=
    Site.applyNotices_withRun _ run ns
  have hreports := place_reports (κ := κ) (ε := ε) c ns
  unfold follow
  dsimp only
  rw [hrun]
  dsimp only
  rw [hstatus]
  cases a with
  | work t windingUp => exact abreast_set _ hw rfl (own_cons (.driver _) hown) hreports
  | settle => exact abreast_set _ hw rfl (own_cons (.driver _) hown) hreports
  | call o =>
    refine abreast_call hk hw hown ?_ _ _ hreports
    rfl
  | resolve r ps =>
    refine abreast_call hk hw hown ?_ _ _ hreports
    rfl
  | finished o handler =>
    have hplace : (reports c ns ++ [.finished c o] : List (Event κ ε)).filterMap Event.place =
        (ns.filterMap Notice.happening? ++ [Happening.finished o]).map (c, ·) := by
      rw [List.filterMap_append, hreports, List.map_append]
      rfl
    cases handler with
    | none => exact abreast_set _ hw rfl (own_cons (.driver _) hown) hplace
    | some handler =>
      refine abreast_call hk hw hown ?_ _ _ hplace
      rfl

theorem abreast_drive (stage : Stage κ) :
    Progress.Abreast c w (drive host w c rest stage) (drive host w' c rest stage) := by
  obtain ⟨run, hrun⟩ := Context.anonymous_eq_iff.mp hw.context
  cases stage with
  | poll =>
    unfold drive
    dsimp only
    rw [hrun]
    dsimp only
    cases (w.context c).queue.pop? with
    | none => exact abreast_set [] hw rfl hown rfl
    | some p =>
      obtain ⟨s, q⟩ := p
      cases hm : (w.context c).machine with
      | some m =>
        dsimp only
        exact abreast_set [.taken s true] hw rfl (own_cons (.driver _) hown) rfl
      | none =>
        dsimp only
        exact abreast_set [.taken s false, .reported (.signalDropped s.name)] hw rfl
          (own_cons (.driver _) hown) rfl
  | moving t windingUp =>
    unfold drive
    dsimp only
    have hmachine : (w'.context c).machine = (w.context c).machine := by rw [hrun]
    rw [hmachine]
    cases (w.context c).machine with
    | some m => exact abreast_follow hk hw hown _
    | none => exact abreast_quiet hw (own_cons (.driver _) hown)
  | settle =>
    unfold drive
    dsimp only
    rw [hrun]
    dsimp only
    cases (w.context c).machine.bind (·.parked) with
    | some p => exact abreast_set [] hw rfl (own_cons (.driver _) hown) rfl
    | none => exact abreast_quiet hw (own_cons (.driver _) hown)
  | calling | choosing =>
    exact abreast_quiet hw (own_cons (.driver _) hown)

end Drivers

end Engine

open Engine in
/-- Code that keeps to the context is followed by such code, over worlds that agree; and all other
contexts, with their parts of the state, are left as they are. -/
theorem Config.Abreast.step {host : Host κ (ContextId → τ) ε} {c : ContextId}
    {program : Invocation κ → OwnCode κ τ ε} {a b : Config κ (ContextId → τ) ε}
    (hk : Confines host c program) (h : a.Abreast c b) :
    Progress.Abreast c a.world (Engine.step host a) (Engine.step host b) := by
  cases h with
  | @own w w' stack hw hs =>
    match stack, hs with
    | [], _ => exact .returned hw (.refl c w) ""
    | _ :: rest, hs =>
      obtain ⟨ha, hrest⟩ := List.forall_mem_cons.mp hs
      cases ha with
      | code k => exact abreast_request hw hrest k
      | driver stage => exact abreast_drive hk hw hrest stage
  | storing hw hs t k => exact abreast_store hw hs t k

end Sequencer
