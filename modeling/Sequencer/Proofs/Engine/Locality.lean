import Sequencer.Proofs.Engine.Safety
import Sequencer.Proofs.Engine.Site

/-! Locality. Each step of the engine is an impulse to one context at most. What it does there is
decided by what that context shows and by the impulse; all other contexts are left as they are. -/

namespace Sequencer
variable {κ σ ε : Type}

namespace Engine

def site (c : ContextId) (cfg : Config κ σ ε) : Site κ :=
  ⟨cfg.world.context c, stage? c cfg.stack⟩

/-- The impulse that the next step is, and the context to which it comes. -/
def deed? (cfg : Config κ σ ε) : Option (ContextId × Impulse κ) :=
  let run := cfg.world.started + 1
  match cfg.stack with
  | .code (.post c s deferred _) :: _ => some (c, .user (.post s deferred) run)
  | .code (.launch c s _) :: _ => some (c, .user (.launch s) run)
  | .code (.done text) :: .driver c _ :: _ => some (c, .user (.answer text) run)
  | .code .panic :: .driver c _ :: _ => some (c, .user .panic run)
  | .driver c _ :: _ => some (c, .drive)
  | _ => none

def impulses (c : ContextId) (cfg : Config κ σ ε) : List (Impulse κ) := share c (deed? cfg).toList

end Engine

open Engine in
/-- Every context makes of the step what it makes of the impulses that come to it. -/
def Progress.Local (cfg : Config κ σ ε) : Progress κ σ ε → Prop
  | .more cfg' es => ∀ c, (site c cfg).play (impulses c cfg) = (site c cfg', happenings c es) ∧
      ∀ i ∈ impulses c cfg, (site c cfg).Admits i
  | .returned w _ | .panicked w => ∀ (k : Code κ σ ε) c, site c ⟨w, [.code k]⟩ = site c cfg

namespace Engine
variable {host : Host κ σ ε} {w w' : World κ σ} {c : ContextId} {stage : Stage κ}
  {rest stack : List (Activation κ σ ε)} {k k' : Code κ σ ε} {cfg : Config κ σ ε}
  {es : List (Event κ ε)}

theorem local_none (hd : deed? cfg = none) (hs : ∀ c, site c ⟨w', stack⟩ = site c cfg)
    (he : es.filterMap Event.place = []) : (goOn w' stack es).Local cfg := by
  intro c
  have hi : impulses c cfg = [] := by rw [impulses, hd, Option.toList_none, share_nil]
  rw [hi]
  refine ⟨?_, List.forall_mem_nil _⟩
  rw [Site.play, hs, happenings, he, share_nil]

theorem local_some {i : Impulse κ} (hs : List (Happening κ)) (hd : deed? cfg = some (c, i))
    (ha : (site c cfg).Admits i) (hr : (site c cfg).react i = (site c ⟨w', stack⟩, hs))
    (he : es.filterMap Event.place = hs.map (c, ·))
    (hne : ∀ d, d ≠ c → site d ⟨w', stack⟩ = site d cfg) : (goOn w' stack es).Local cfg := by
  intro d
  have hi : impulses d cfg = if c = d then [i] else [] := by
    rw [impulses, hd, Option.toList_some, share, List.filterMap_cons]
    by_cases hcd : c = d <;> simp [hcd]
  by_cases hcd : d = c
  · subst hcd
    rw [hi, if_pos rfl]
    refine ⟨?_, fun j hj => List.mem_singleton.mp hj ▸ ha⟩
    simp only [Site.play, hr, List.append_nil, happenings, he, share_map_self]
  · rw [hi, if_neg (Ne.symm hcd)]
    refine ⟨?_, List.forall_mem_nil _⟩
    rw [Site.play, hne d hcd, happenings, he, share_map_of_ne hcd]

theorem site_setContext_self (x : Context κ) (stack : List (Activation κ σ ε)) :
    site c ⟨w.setContext c x, stack⟩ = ⟨x, stage? c stack⟩ := by
  rw [site, World.context_setContext_self]

theorem site_setContext_of_ne {d : ContextId} (h : d ≠ c) (x : Context κ)
    (stack : List (Activation κ σ ε)) :
    site d ⟨w.setContext c x, stack⟩ = ⟨w.context d, stage? d stack⟩ := by
  rw [site, context_setContext_of_ne h]

theorem rests_code (h : Config.Tracked ⟨w, .code k :: rest⟩) (c : ContextId) :
    (site c ⟨w, .code k :: rest⟩).Rests := fun _ hs => inCall_of_suspended h.layers hs

theorem local_post {s : Signal} {deferred : Bool}
    (h : Config.Tracked ⟨w, .code (.post c s deferred k) :: rest⟩) :
    (post w c s deferred (.code k :: rest)).Local ⟨w, .code (.post c s deferred k) :: rest⟩ := by
  unfold post
  dsimp only
  cases hw : (w.context c).driving with
  | true =>
    rw [if_pos rfl]
    refine local_some (c := c) [.posted s deferred] rfl (rests_code h c) ?_ rfl
      fun d hd => site_setContext_of_ne hd ..
    rw [Site.react_post_of_driving hw, site_setContext_self]
    rfl
  | false =>
    rw [if_neg Bool.false_ne_true]
    refine local_some (c := c) [.posted s deferred] rfl (rests_code h c) ?_ rfl
      fun d hd => ?_
    · rw [Site.react_post_of_not_driving hw, site_setContext_self]
      exact congrArg (fun st => (_, _)) (stage?_driver_self ..).symm
    · rw [site_setContext_of_ne hd]
      exact congrArg _ (stage?_driver_of_ne hd ..)

theorem local_launch {s : Sequence κ}
    (h : Config.Tracked ⟨w, .code (.launch c s k) :: rest⟩) :
    (launch w c s (.code k :: rest)).Local ⟨w, .code (.launch c s k) :: rest⟩ := by
  unfold launch
  dsimp only
  split
  next ha =>
    refine local_some (c := c) [.launched, .posted .next false] rfl (rests_code h c) ?_ rfl
      fun d hd => ?_
    · rw [site_setContext_self, stage?_driver_self]
      exact Site.react_launch_of_accepts ha ..
    · rw [site_setContext_of_ne hd, stage?_driver_of_ne hd]
      rfl
  next ha =>
    refine local_some (c := c) [.reported (.startIgnored .contextBusy)] rfl (rests_code h c) ?_ rfl
      fun d hd => rfl
    exact Site.react_launch_of_not_accepts ha ..

theorem local_answer {text : String}
    (h : Config.Tracked ⟨w, .code (.done text) :: .driver c stage :: .code k' :: rest⟩) :
    (request w (.driver c stage :: .code k' :: rest) (.done text)).Local
      ⟨w, .code (.done text) :: .driver c stage :: .code k' :: rest⟩ := by
  have hc : InCall stage := h.layers.1
  have ha : (site c ⟨w, .code (.done text) :: .driver c stage :: .code k' :: rest⟩).Admits
      (.user (.answer text) (w.started + 1)) := ⟨stage, stage?_driver_self .., hc⟩
  have hne (d : ContextId) (hd : d ≠ c) : stage? d (.driver c .settle :: .code k' :: rest) =
      stage? d (.code (.done text) :: .driver c stage :: .code k' :: rest) :=
    (stage?_driver_of_ne hd ..).trans (stage?_driver_of_ne hd ..).symm
  cases stage with
  | poll | moving | settle => exact absurd hc not_false
  | calling =>
    refine local_some (c := c) [] rfl ha ?_ rfl fun d hd => by rw [site, hne d hd]; rfl
    simp only [Site.react, site, stage?, if_pos]
  | choosing =>
    refine local_some (c := c) [] rfl ha ?_ rfl fun d hd => ?_
    · rw [World.modify, site_setContext_self]
      simp only [Site.react, site, stage?, if_pos]
    · rw [World.modify, site_setContext_of_ne hd, hne d hd]
      rfl

theorem local_unwind
    (h : Config.Tracked ⟨w, .code .panic :: .driver c stage :: .code k' :: rest⟩) :
    (request w (.driver c stage :: .code k' :: rest) .panic).Local
      ⟨w, .code .panic :: .driver c stage :: .code k' :: rest⟩ := by
  refine local_some (c := c) [] rfl ⟨stage, stage?_driver_self .., h.layers.1⟩ ?_ rfl
    fun d hd => ?_
  · rw [World.modify, site_setContext_self]
    simp only [Site.react, site, stage?, h.layers.2.1]
  · rw [World.modify, site_setContext_of_ne hd]
    simp only [site, stage?, if_neg (Ne.symm hd)]

theorem local_request (h : Config.Tracked ⟨w, .code k :: rest⟩) :
    (request w rest k).Local ⟨w, .code k :: rest⟩ := by
  cases k with
  | done text =>
    match rest with
    | [] => exact fun _ _ => rfl
    | .code k' :: rest => exact local_none rfl (fun _ => rfl) rfl
    | .driver c stage :: rest =>
      obtain ⟨k', rest, rfl⟩ := Suspended.exists_code h.layers
      exact local_answer h
  | panic =>
    match rest with
    | [] => exact fun _ _ => rfl
    | .code k' :: rest => exact local_none rfl (fun _ => rfl) rfl
    | .driver c stage :: rest =>
      obtain ⟨k', rest, rfl⟩ := Suspended.exists_code h.layers
      exact local_unwind h
  | post c s deferred k => exact local_post h
  | launch c s k => exact local_launch h
  | create | inspect | emit | load | store => exact local_none rfl (fun _ => rfl) rfl

theorem place_reports (c : ContextId) (ns : List Notice) :
    (reports c ns : List (Event κ ε)).filterMap Event.place =
      (ns.filterMap Notice.happening?).map (c, ·) := by
  induction ns with
  | nil => rfl
  | cons n ns ih =>
    cases n with
    | active a => exact ih
    | report d => exact congrArg ((c, .reported d) :: ·) ih

theorem site_driver (h : Config.Tracked ⟨w, .driver c stage :: rest⟩) :
    (site c ⟨w, .driver c stage :: rest⟩).Admits .drive ∧
      site c ⟨w, .driver c stage :: rest⟩ = ⟨w.context c, some stage⟩ := by
  obtain ⟨k, r, rfl⟩ := h.layers.exists_code
  exact ⟨⟨stage, stage?_driver_self .., h.layers.1⟩, by rw [site, stage?_driver_self]⟩

theorem local_drive {stage' : Option (Stage κ)} {x : Context κ} {hs : List (Happening κ)}
    (h : Config.Tracked ⟨w, .driver c stage :: rest⟩)
    (hr : Site.drive (w.context c) stage = (⟨x, stage'⟩, hs)) (hw : w'.context c = x)
    (hs' : stage? c stack = stage') (he : es.filterMap Event.place = hs.map (c, ·))
    (hne : ∀ d, d ≠ c → w'.context d = w.context d ∧ stage? d stack = stage? d rest) :
    (goOn w' stack es).Local ⟨w, .driver c stage :: rest⟩ := by
  obtain ⟨ha, hx⟩ := site_driver h
  refine local_some (c := c) hs rfl ha ?_ he fun d hd => ?_
  · rw [hx]
    simp only [Site.react, hr, site, hw, hs']
  · simp only [site, hne d hd, stage?_driver_of_ne hd]

theorem local_restage {x : Context κ} {stage' : Stage κ} {hs : List (Happening κ)}
    (h : Config.Tracked ⟨w, .driver c stage :: rest⟩)
    (hr : Site.drive (w.context c) stage = (⟨x, some stage'⟩, hs)) (hw : w'.context c = x)
    (hne : ∀ d, d ≠ c → w'.context d = w.context d)
    (he : es.filterMap Event.place = hs.map (c, ·)) :
    (goOn w' (.driver c stage' :: rest) es).Local ⟨w, .driver c stage :: rest⟩ :=
  local_drive h hr hw (stage?_driver_self ..) he fun d hd => ⟨hne d hd, stage?_driver_of_ne hd ..⟩

theorem local_call {x : Context κ} {stage' : Stage κ} {i : Invocation κ} {hs : List (Happening κ)}
    (h : Config.Tracked ⟨w, .driver c stage :: rest⟩)
    (hr : Site.drive (w.context c) stage =
      (⟨x, some stage'⟩, hs ++ [.called i x.status.active]))
    (he : es.filterMap Event.place = hs.map (c, ·)) :
    (call host (w.setContext c x) c i stage' rest es).Local ⟨w, .driver c stage :: rest⟩ := by
  refine local_drive h hr (World.context_setContext_self ..) (stage?_driver_self ..) ?_
    fun d hd => ⟨context_setContext_of_ne hd _, stage?_driver_of_ne hd ..⟩
  rw [World.context_setContext_self, List.filterMap_append, he, List.map_append]
  rfl

theorem local_follow {u : Turn κ} (h : Config.Tracked ⟨w, .driver c stage :: rest⟩)
    (hr : Site.drive (w.context c) stage = Site.follow (w.context c) u) :
    (follow host w c u rest).Local ⟨w, .driver c stage :: rest⟩ := by
  obtain ⟨m, ns, a⟩ := u
  have hne (x : Context κ) (d : ContextId) (hd : d ≠ c) :
      (w.setContext c x).context d = w.context d := context_setContext_of_ne hd x
  have he := place_reports (κ := κ) (ε := ε) c ns
  cases a with
  | work t windingUp =>
    exact local_restage h hr (World.context_setContext_self ..) (hne _) he
  | settle => exact local_restage h hr (World.context_setContext_self ..) (hne _) he
  | call o => exact local_call h hr he
  | resolve r ps => exact local_call h hr he
  | finished o handler =>
    have he' : (reports c ns ++ [.finished c o] : List (Event κ ε)).filterMap Event.place =
        (ns.filterMap Notice.happening? ++ [Happening.finished o]).map (c, ·) := by
      rw [List.filterMap_append, he, List.map_append]
      rfl
    cases handler with
    | none => exact local_restage h hr (World.context_setContext_self ..) (hne _) he'
    | some handler =>
      refine local_call h (hr.trans ?_) he'
      simp only [Site.follow, List.append_assoc]
      cases o <;> rfl

theorem local_poll (host : Host κ σ ε)
    (h : Config.Tracked ⟨w, .driver c .poll :: .code k :: rest⟩) :
    (drive host w c (.code k :: rest) .poll).Local ⟨w, .driver c .poll :: .code k :: rest⟩ := by
  have hne (x : Context κ) (d : ContextId) (hd : d ≠ c) :
      (w.setContext c x).context d = w.context d := context_setContext_of_ne hd x
  unfold drive
  dsimp only
  cases hq : (w.context c).queue.pop? with
  | none =>
    exact local_drive h (Site.drive_poll_empty hq) (World.context_setContext_self ..)
      h.layers.2.1 rfl fun d hd => ⟨hne _ d hd, rfl⟩
  | some p =>
    obtain ⟨s, q⟩ := p
    cases hm : (w.context c).machine with
    | some m =>
      exact local_restage h (Site.drive_poll_applied hq hm)
        (by rw [World.context_setContext_self, hm]) (hne _) rfl
    | none =>
      exact local_restage h (Site.drive_poll_dropped hq hm)
        (by rw [World.context_setContext_self, hm]) (hne _) rfl

theorem local_settle (host : Host κ σ ε)
    (h : Config.Tracked ⟨w, .driver c .settle :: .code k :: rest⟩) :
    (drive host w c (.code k :: rest) .settle).Local ⟨w, .driver c .settle :: .code k :: rest⟩ := by
  unfold drive
  dsimp only
  cases hp : (w.context c).machine.bind (·.parked) with
  | some p =>
    exact local_restage h (Site.drive_settle_parked hp) (World.context_setContext_self ..)
      (fun d hd => context_setContext_of_ne hd _) rfl
  | none => exact local_restage h (Site.drive_settle_rest hp) rfl (fun _ _ => rfl) rfl

/-- Whatever the step, it is an impulse to one context at most, and all others are left alone. -/
theorem step_local (h : cfg.Tracked) : (step host cfg).Local cfg := by
  obtain ⟨w, stack⟩ := cfg
  match stack with
  | [] => exact absurd h.layers not_false
  | .code k :: rest => exact local_request h
  | .driver c stage :: rest =>
    obtain ⟨k, rest, rfl⟩ := h.layers.exists_code
    cases stage with
    | poll => exact local_poll host h
    | settle => exact local_settle host h
    | calling | choosing => exact absurd trivial h.layers.1
    | moving t windingUp =>
      show Progress.Local _ (drive host w c (.code k :: rest) (.moving t windingUp))
      unfold drive
      dsimp only
      cases hm : (w.context c).machine with
      | some m => exact local_follow h (Site.drive_moving hm t windingUp)
      | none =>
        exact local_restage h (Site.drive_moving_none hm ..) rfl (fun _ _ => rfl) rfl

end Engine
end Sequencer
