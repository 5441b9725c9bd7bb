import Sequencer.Proofs.Engine.OwnCode

/-! Contexts that have nothing to do with each other. Calls from outside are served one after the
other. If the user code of every context keeps to it, then in whatever order the calls to several
contexts come, each context gets where its own calls alone would have brought it. -/

namespace Sequencer
variable {κ σ τ ε : Type}

inductive OutsideCall (κ : Type) where
  | start (sequence : Sequence κ)
  | signal (signal : Signal) (deferred : Bool)

inductive CallResult where
  | returned
  | panicked
deriving DecidableEq, Repr

namespace OutsideCall

def code (c : ContextId) : OutsideCall κ → Code κ σ ε
  | .start s => .launch c s (.done "")
  | .signal s deferred => .post c s deferred (.done "")

theorem exists_ownCode (call : OutsideCall κ) (c : ContextId) :
    ∃ k : OwnCode κ τ ε, (call.code c : Code κ (ContextId → τ) ε) = k.code c := by
  cases call with
  | start s => exact ⟨.launch s (.done ""), rfl⟩
  | signal s deferred => exact ⟨.post s deferred (.done ""), rfl⟩

end OutsideCall

namespace Engine

/-- From the configuration the engine comes to an end, with the events on the way. -/
inductive Ends (host : Host κ σ ε) : Config κ σ ε → List (Event κ ε) → CallResult → World κ σ → Prop
  | returned {a : Config κ σ ε} {w : World κ σ} {answer : String}
    (h : step host a = .returned w answer) : Ends host a [] .returned w
  | panicked {a : Config κ σ ε} {w : World κ σ} (h : step host a = .panicked w) :
    Ends host a [] .panicked w
  | step {a b : Config κ σ ε} {es es' : List (Event κ ε)} {r : CallResult} {w : World κ σ}
    (h : Engine.step host a = .more b es) (rest : Ends host b es' r w) : Ends host a (es ++ es') r w

/-- The calls are served in turn, each in the world that the one before has left, whether that has
returned or panicked. -/
inductive Serves (host : Host κ σ ε) : World κ σ → List (ContextId × OutsideCall κ) →
    List (ContextId × CallResult) → List (Event κ ε) → World κ σ → Prop
  | nil (w : World κ σ) : Serves host w [] [] [] w
  | cons {w w' v : World κ σ} {c : ContextId} {call : OutsideCall κ} {es es' : List (Event κ ε)}
    {r : CallResult} {calls : List (ContextId × OutsideCall κ)} {rs : List (ContextId × CallResult)}
    (h : Ends host ⟨w, [.code (call.code c)]⟩ es r w') (rest : Serves host w' calls rs es' v) :
    Serves host w ((c, call) :: calls) ((c, r) :: rs) (es ++ es') v

section
variable {host : Host κ σ ε} {a : Config κ σ ε} {es es' : List (Event κ ε)} {r r' : CallResult}
  {w v v' : World κ σ} {calls : List (ContextId × OutsideCall κ)}
  {rs rs' : List (ContextId × CallResult)}

theorem Ends.unique (h : Ends host a es r v) (h' : Ends host a es' r' v') :
    es = es' ∧ r = r' ∧ v = v' := by
  induction h generalizing es' with
  | returned h =>
    cases h' with
    | returned h' =>
      obtain ⟨rfl, -⟩ := Progress.returned.inj (h.symm.trans h')
      exact ⟨rfl, rfl, rfl⟩
    | panicked h' => exact absurd (h.symm.trans h') nofun
    | step h' => exact absurd (h.symm.trans h') nofun
  | panicked h =>
    cases h' with
    | returned h' => exact absurd (h.symm.trans h') nofun
    | panicked h' =>
      obtain rfl := Progress.panicked.inj (h.symm.trans h')
      exact ⟨rfl, rfl, rfl⟩
    | step h' => exact absurd (h.symm.trans h') nofun
  | step h _ ih =>
    cases h' with
    | returned h' => exact absurd (h.symm.trans h') nofun
    | panicked h' => exact absurd (h.symm.trans h') nofun
    | step h' rest' =>
      obtain ⟨rfl, rfl⟩ := Progress.more.inj (h.symm.trans h')
      obtain ⟨rfl, rfl, rfl⟩ := ih rest'
      exact ⟨rfl, rfl, rfl⟩

theorem Serves.unique (h : Serves host w calls rs es v) (h' : Serves host w calls rs' es' v') :
    rs = rs' ∧ es = es' ∧ v = v' := by
  induction h generalizing rs' es' with
  | nil w =>
    cases h'
    exact ⟨rfl, rfl, rfl⟩
  | cons h _ ih =>
    cases h' with
    | cons h' rest' =>
      obtain ⟨rfl, rfl, rfl⟩ := h.unique h'
      obtain ⟨rfl, rfl, rfl⟩ := ih rest'
      exact ⟨rfl, rfl, rfl⟩

end

section
variable {α : Type} {c d : ContextId}

theorem share_cons_self (c : ContextId) (x : α) (l : List (ContextId × α)) :
    share c ((c, x) :: l) = x :: share c l := by
  rw [share, List.filterMap_cons, if_pos rfl]
  rfl

theorem share_cons_of_ne (h : d ≠ c) (x : α) (l : List (ContextId × α)) :
    share c ((d, x) :: l) = share c l := by
  rw [share, List.filterMap_cons, if_neg h]
  rfl

end

/-! ### One call -/

section
variable {host : Host κ (ContextId → τ) ε} {program : Invocation κ → OwnCode κ τ ε}
  {c d : ContextId} {w w' v : World κ (ContextId → τ)} {es : List (Event κ ε)} {r : CallResult}

theorem happenings_of_place {hs : List (Happening κ)}
    (h : es.filterMap Event.place = hs.map (c, ·)) :
    happenings c es = hs ∧ ∀ d, d ≠ c → happenings d es = [] := by
  unfold happenings
  rw [h]
  exact ⟨share_map_self c hs, fun d hd => share_map_of_ne hd hs⟩

theorem Ends.abreast (hk : Confines host c program) {a b : Config κ (ContextId → τ) ε}
    (hab : a.Abreast c b) (h : Ends host a es r v) :
    ∃ es' v', Ends host b es' r v' ∧ v.Agrees c v' ∧ a.world.Spares c v ∧
      happenings c es = happenings c es' ∧ ∀ d, d ≠ c → happenings d es = [] := by
  induction h generalizing b with
  | returned h =>
    have hstep := hab.step hk
    rw [h] at hstep
    generalize hb : Engine.step host b = p at hstep
    cases hstep with
    | returned hv hw answer => exact ⟨[], _, .returned hb, hv, hw, rfl, fun _ _ => rfl⟩
  | panicked h =>
    have hstep := hab.step hk
    rw [h] at hstep
    generalize hb : Engine.step host b = p at hstep
    cases hstep with
    | panicked hv hw => exact ⟨[], _, .panicked hb, hv, hw, rfl, fun _ _ => rfl⟩
  | step h _ ih =>
    have hstep := hab.step hk
    rw [h] at hstep
    generalize hb : Engine.step host b = p at hstep
    cases hstep with
    | more hnext hw hs hes hes' =>
      obtain ⟨es', v', hends, hv, hspares, hsame, hother⟩ := ih hnext
      obtain ⟨hself, hne⟩ := happenings_of_place hes
      have hself' := (happenings_of_place hes').1
      refine ⟨_, v', .step hb hends, hv, hw.trans hspares, ?_, fun d hd => ?_⟩
      · rw [happenings_append, happenings_append, hself, hself', hsame]
      · rw [happenings_append, hne d hd, hother d hd, List.append_nil]

theorem Ends.call_abreast (hk : Confines host c program) (hw : w.Agrees c w') (call : OutsideCall κ)
    (h : Ends host ⟨w, [.code (call.code c)]⟩ es r v) :
    ∃ es' v', Ends host ⟨w', [.code (call.code c)]⟩ es' r v' ∧ v.Agrees c v' ∧ w.Spares c v ∧
      happenings c es = happenings c es' ∧ ∀ d, d ≠ c → happenings d es = [] := by
  obtain ⟨k, hcode⟩ := call.exists_ownCode (τ := τ) (ε := ε) c
  rw [hcode] at h ⊢
  exact h.abreast hk (.own hw (own_cons (.code k) (List.forall_mem_nil _)))

end

/-! ### All calls -/

section
variable {host : Host κ (ContextId → τ) ε} {c : ContextId} {w w' v : World κ (ContextId → τ)}
  {es : List (Event κ ε)} {calls : List (ContextId × OutsideCall κ)}
  {rs : List (ContextId × CallResult)}

/-- Where the context agrees, its own calls alone end as they do among the others. -/
theorem Serves.project (hk : ∀ d ∈ calls.map Prod.fst, ∃ program, Confines host d program)
    (h : Serves host w calls rs es v) (hw : w.Agrees c w') :
    ∃ es' v', Serves host w' ((share c calls).map (c, ·)) ((share c rs).map (c, ·)) es' v' ∧
      v.Agrees c v' ∧ happenings c es = happenings c es' := by
  -- A call to the context goes abreast with the same call alone, and a call to another spares it.
  induction h generalizing w' with
  | nil w => exact ⟨[], w', .nil w', hw, rfl⟩
  | @cons w w₁ v d call es es₁ r calls rs h rest ih =>
    obtain ⟨⟨program, hd⟩, hrest⟩ := List.forall_mem_cons.mp hk
    by_cases hdc : d = c
    · subst hdc
      obtain ⟨es', w₁', h', hw₁, -, hsame, -⟩ := h.call_abreast hd hw call
      obtain ⟨es₁', v', hserves, hv, hsame₁⟩ := ih hrest hw₁
      rw [share_cons_self, share_cons_self, List.map_cons, List.map_cons]
      refine ⟨es' ++ es₁', v', .cons h' hserves, hv, ?_⟩
      rw [happenings_append, happenings_append, hsame, hsame₁]
    · obtain ⟨-, -, -, -, hspares, -, hother⟩ := h.call_abreast hd (.refl d w) call
      have hw₁ : w₁.Agrees c w' := (hspares.agrees (Ne.symm hdc)).symm.trans hw
      obtain ⟨es₁', v', hserves, hv, hsame₁⟩ := ih hrest hw₁
      rw [share_cons_of_ne hdc, share_cons_of_ne hdc]
      refine ⟨es₁', v', hserves, hv, ?_⟩
      rw [happenings_append, hother c (Ne.symm hdc), hsame₁, List.nil_append]

theorem exists_serves (hk : ∀ d ∈ calls.map Prod.fst, ∃ program, Confines host d program)
    (h : ∀ c, ∃ w' rs es v, w.Agrees c w' ∧ Serves host w' ((share c calls).map (c, ·)) rs es v) :
    ∃ rs es v, Serves host w calls rs es v := by
  -- The lone runs drift apart, so each context has a world of its own to agree with.
  induction calls generalizing w with
  | nil => exact ⟨[], [], w, .nil w⟩
  | cons p calls ih =>
    obtain ⟨c, call⟩ := p
    obtain ⟨⟨program, hc⟩, hrest⟩ := List.forall_mem_cons.mp hk
    obtain ⟨w', rs', es', v', hw, hserves⟩ := h c
    rw [share_cons_self, List.map_cons] at hserves
    cases hserves with
    | @cons _ w₁' _ _ _ _ _ r _ _ hends hserves =>
      obtain ⟨es, w₁, hends₁, hw₁, -, -, -⟩ := hends.call_abreast hc hw.symm call
      obtain ⟨-, -, -, -, hspares, -, -⟩ := hends₁.call_abreast hc (.refl c w) call
      have hall (d : ContextId) : ∃ w' rs es v, w₁.Agrees d w' ∧
          Serves host w' ((share d calls).map (d, ·)) rs es v := by
        by_cases hdc : d = c
        · subst hdc
          exact ⟨w₁', _, _, _, hw₁.symm, hserves⟩
        · obtain ⟨w', rs, es, v, hw, hserves⟩ := h d
          rw [share_cons_of_ne (Ne.symm hdc)] at hserves
          exact ⟨w', rs, es, v, (hspares.agrees hdc).symm.trans hw, hserves⟩
      obtain ⟨rs, es₁, v, hserves₁⟩ := ih hrest hall
      exact ⟨_, _, v, .cons hends₁ hserves₁⟩

end

/-! ### Two contexts -/

/-- The calls to the first context and those to the second, in one order that keeps both of
theirs. -/
inductive Interleaves (a b : ContextId) : List (OutsideCall κ) → List (OutsideCall κ) →
    List (ContextId × OutsideCall κ) → Prop
  | nil : Interleaves a b [] [] []
  | first {xs ys : List (OutsideCall κ)} {calls : List (ContextId × OutsideCall κ)}
    (x : OutsideCall κ) (h : Interleaves a b xs ys calls) :
    Interleaves a b (x :: xs) ys ((a, x) :: calls)
  | second {xs ys : List (OutsideCall κ)} {calls : List (ContextId × OutsideCall κ)}
    (y : OutsideCall κ) (h : Interleaves a b xs ys calls) :
    Interleaves a b xs (y :: ys) ((b, y) :: calls)

namespace Interleaves
variable {a b : ContextId} {xs ys : List (OutsideCall κ)} {calls : List (ContextId × OutsideCall κ)}

theorem share_eq (h : Interleaves a b xs ys calls) (hab : a ≠ b) :
    share a calls = xs ∧ share b calls = ys := by
  induction h with
  | nil => exact ⟨rfl, rfl⟩
  | first x _ ih =>
    obtain ⟨rfl, rfl⟩ := ih
    exact ⟨share_cons_self .., share_cons_of_ne hab ..⟩
  | second y _ ih =>
    obtain ⟨rfl, rfl⟩ := ih
    exact ⟨share_cons_of_ne hab.symm .., share_cons_self ..⟩

theorem mem_contexts (h : Interleaves a b xs ys calls) :
    ∀ d ∈ calls.map Prod.fst, d = a ∨ d = b := by
  induction h with
  | nil => exact List.forall_mem_nil _
  | first x _ ih => exact List.forall_mem_cons.mpr ⟨.inl rfl, ih⟩
  | second y _ ih => exact List.forall_mem_cons.mpr ⟨.inr rfl, ih⟩

theorem share_of_ne (h : Interleaves a b xs ys calls) {c : ContextId} (ha : c ≠ a) (hb : c ≠ b) :
    share c calls = [] := by
  induction h with
  | nil => rfl
  | first x _ ih => rw [share_cons_of_ne ha.symm, ih]
  | second y _ ih => rw [share_cons_of_ne hb.symm, ih]

end Interleaves

/-- Of what the context is to be seen of, run numbers aside, nothing is different: its state, its
part of the state of user code, what has happened at it, and how its calls have ended. -/
structure Alike (c : ContextId) (v : World κ (ContextId → τ)) (es : List (Event κ ε))
    (rs : List (ContextId × CallResult)) (v' : World κ (ContextId → τ)) (es' : List (Event κ ε))
    (rs' : List (ContextId × CallResult)) : Prop where
  agrees : v.Agrees c v'
  happenings : happenings c es = happenings c es'
  results : share c rs = share c rs'

theorem Serves.alike {host : Host κ (ContextId → τ) ε} {c : ContextId}
    {w v v' : World κ (ContextId → τ)} {calls : List (ContextId × OutsideCall κ)}
    {rs rs' : List (ContextId × CallResult)} {es es' : List (Event κ ε)}
    (hk : ∀ d ∈ calls.map Prod.fst, ∃ program, Confines host d program)
    (h : Serves host w calls rs es v)
    (h' : Serves host w ((share c calls).map (c, ·)) rs' es' v') : Alike c v es rs v' es' rs' := by
  obtain ⟨es₁, v₁, hserves, hv, hsame⟩ := h.project hk (.refl c w)
  obtain ⟨rfl, rfl, rfl⟩ := hserves.unique h'
  exact ⟨hv, hsame, (share_map_self c _).symm⟩

/-- Independent contexts commute. Where the user code of two contexts keeps to them, an interleaving
of the calls to them can be served if the calls to each can be served alone, and then it leaves each
context as its own calls do. -/
theorem independent_contexts_commute {host : Host κ (ContextId → τ) ε} {a b : ContextId}
    {first second : Invocation κ → OwnCode κ τ ε} (hab : a ≠ b) (ha : Confines host a first)
    (hb : Confines host b second) {xs ys : List (OutsideCall κ)}
    {calls : List (ContextId × OutsideCall κ)} (h : Interleaves a b xs ys calls)
    (w : World κ (ContextId → τ)) :
    ((∃ rs es v, Serves host w calls rs es v) ↔
      (∃ rs es v, Serves host w (xs.map (a, ·)) rs es v) ∧
        ∃ rs es v, Serves host w (ys.map (b, ·)) rs es v) ∧
    ∀ rs es v, Serves host w calls rs es v →
      (∀ rs' es' v', Serves host w (xs.map (a, ·)) rs' es' v' → Alike a v es rs v' es' rs') ∧
      ∀ rs' es' v', Serves host w (ys.map (b, ·)) rs' es' v' → Alike b v es rs v' es' rs' := by
  obtain ⟨hxs, hys⟩ := h.share_eq hab
  have hk : ∀ d ∈ calls.map Prod.fst, ∃ program, Confines host d program := by
    intro d hd
    rcases h.mem_contexts d hd with rfl | rfl
    · exact ⟨first, ha⟩
    · exact ⟨second, hb⟩
  refine ⟨⟨?_, ?_⟩, ?_⟩
  · rintro ⟨rs, es, v, hserves⟩
    obtain ⟨esa, va, hxa, -⟩ := hserves.project hk (.refl a w)
    obtain ⟨esb, vb, hyb, -⟩ := hserves.project hk (.refl b w)
    exact ⟨⟨_, esa, va, hxs ▸ hxa⟩, _, esb, vb, hys ▸ hyb⟩
  · rintro ⟨⟨rsa, esa, va, hxa⟩, rsb, esb, vb, hyb⟩
    refine exists_serves hk fun c => ?_
    by_cases hca : c = a
    · subst hca
      exact ⟨w, rsa, esa, va, .refl c w, hxs.symm ▸ hxa⟩
    by_cases hcb : c = b
    · subst hcb
      exact ⟨w, rsb, esb, vb, .refl c w, hys.symm ▸ hyb⟩
    · rw [h.share_of_ne hca hcb]
      exact ⟨w, [], [], w, .refl c w, .nil w⟩
  · intro rs es v hserves
    constructor
    · intro rs' es' v' h'
      exact hserves.alike hk (hxs.symm ▸ h')
    · intro rs' es' v' h'
      exact hserves.alike hk (hys.symm ▸ h')

/-! ### Two strolls -/

def tally : Invocation Unit → OwnCode Unit Nat Unit :=
  fun _ => .load fun n => .store (n + 1) (.done "")

def tallying : Host Unit (ContextId → Nat) Unit := fun i c => (tally i).code c

def stroll : Sequence Unit := { entries := [.method { operation := () }] }

def unserved : World Unit (ContextId → Nat) := { host := fun _ => 0 }

theorem serves_whole_stroll :
    ∃ rs es v, Serves tallying unserved [(0, .start stroll), (0, .signal .next false)] rs es v ∧
      v.host 0 = 1 ∧ (v.context 0).status.isFinished = true := by
  have hserves : Serves tallying unserved [(0, .start stroll), (0, .signal .next false)] _ _ _ :=
    .cons (.step rfl (.step rfl (.step rfl (.step rfl (.step rfl (.step rfl (.step rfl (.step rfl
      (.step rfl (.step rfl (.returned rfl))))))))))) <|
    .cons (.step rfl (.step rfl (.step rfl (.step rfl (.step rfl (.step rfl (.step rfl
      (.returned rfl)))))))) <| .nil _
  exact ⟨_, _, _, hserves, rfl, rfl⟩

theorem serves_half_stroll :
    ∃ rs es v, Serves tallying unserved [(1, .start stroll)] rs es v ∧ v.host 1 = 1 := by
  have hserves : Serves tallying unserved [(1, .start stroll)] _ _ _ :=
    .cons (.step rfl (.step rfl (.step rfl (.step rfl (.step rfl (.step rfl (.step rfl (.step rfl
      (.step rfl (.step rfl (.returned rfl))))))))))) <| .nil _
  exact ⟨_, _, _, hserves, rfl⟩

/-- The first stroll ends and the second stays on its way, as if the other had not been there. -/
theorem strolls_commute :
    (0 : ContextId) ≠ 1 ∧ Confines tallying 0 tally ∧ Confines tallying 1 tally ∧
    Interleaves 0 1 [.start stroll, .signal .next false] [.start stroll]
      [(0, .start stroll), (1, .start stroll), (0, .signal .next false)] ∧
    ∃ rs es v, Serves tallying unserved
        [(0, .start stroll), (1, .start stroll), (0, .signal .next false)] rs es v ∧
      v.host 0 = 1 ∧ v.host 1 = 1 ∧
      ∃ rs' es' v',
        Serves tallying unserved [(0, .start stroll), (0, .signal .next false)] rs' es' v' ∧
        (v'.context 0).status.isFinished = true ∧ Alike 0 v es rs v' es' rs' := by
  have hinterleaves : Interleaves 0 1 [.start stroll, .signal .next false] [.start stroll]
      [(0, .start stroll), (1, .start stroll), (0, .signal .next false)] :=
    .first _ (.second _ (.first _ .nil))
  have hfirst : Confines tallying 0 tally := fun _ => rfl
  have hsecond : Confines tallying 1 tally := fun _ => rfl
  obtain ⟨hiff, halike⟩ :=
    independent_contexts_commute Nat.zero_ne_one hfirst hsecond hinterleaves unserved
  obtain ⟨rsa, esa, va, hxa, hcount, hfinished⟩ := serves_whole_stroll
  obtain ⟨rsb, esb, vb, hyb, hcount'⟩ := serves_half_stroll
  obtain ⟨rs, es, v, hserves⟩ := hiff.mpr ⟨⟨rsa, esa, va, hxa⟩, rsb, esb, vb, hyb⟩
  obtain ⟨ha, hb⟩ := halike rs es v hserves
  have halikea := ha rsa esa va hxa
  have halikeb := hb rsb esb vb hyb
  exact ⟨Nat.zero_ne_one, hfirst, hsecond, hinterleaves, rs, es, v, hserves,
    halikea.agrees.part.trans hcount, halikeb.agrees.part.trans hcount',
    rsa, esa, va, hxa, hfinished, halikea⟩

end Engine
end Sequencer
