import Sequencer.Proofs.Machine.HandlerJumps
import Sequencer.Proofs.Machine.Termination

/-! What becomes of the errors that a loop collects. The body of a loop that errors do not break
emits some in every round; they are kept with the loop, in order, while the frame of the loop has
none of them. When the control stops the loop all of them are routed at once. -/

namespace Sequencer
variable {κ : Type}

/-- What the entries of a body emit in one round, with the calls made and the answers given, until
an operation asks for the next round. -/
inductive Emits : List (Entry κ) → List (Reply κ) → List Json → Prop
  | again {e : Entry κ} {c : MethodCall κ} {es : List (Entry κ)} (he : e.Calls c)
    (hj : e.jump = none) : Emits (e :: es) [(c, .proceed)] []
  | passed {e : Entry κ} {c : MethodCall κ} {es : List (Entry κ)} {rs : List (Reply κ)}
    {vs : List Json} (he : e.Calls c) (hj : e.jump = none) (rest : Emits es rs vs) :
    Emits (e :: es) ((c, .next) :: rs) vs
  | failed {e : Entry κ} {c : MethodCall κ} {es : List (Entry κ)} {rs : List (Reply κ)}
    {vs : List Json} (he : e.Calls c) (hj : e.jump = none) (ws : List Json)
    (rest : Emits es rs vs) : Emits (e :: es) ((c, .errors ws) :: rs) (ws ++ vs)
  | message {es : List (Entry κ)} {rs : List (Reply κ)} {vs : List Json} (label : Option String)
    (text : String) (breakOnEmit : Bool) (rest : Emits es rs vs) :
    Emits (.error ⟨label, .message text, none, breakOnEmit⟩ :: es) rs (.string text :: vs)

/-- So many rounds of a body, each after the control has asked for it, with what each one emits. -/
inductive Rounds (c : MethodCall κ) (es : List (Entry κ)) : List (List Json) → List (Reply κ) → Prop
  | done : Rounds c es [] []
  | round {vs : List Json} {vss : List (List Json)} {rs rs' : List (Reply κ)} (h : Emits es rs vs)
    (rest : Rounds c es vss rs') : Rounds c es (vs :: vss) ((c, .yes) :: rs ++ rs')

namespace Turn

/-- A run in which of user code operations alone are called, and answer as they are said to; the
turns before the last one are listed. -/
inductive Plays : Turn κ → List (Reply κ) → List (Turn κ) → Turn κ → Prop
  | refl (u : Turn κ) : Plays u [] [] u
  | next {u v w : Turn κ} {rs : List (Reply κ)} {us : List (Turn κ)}
    (hq : u.act.isCallback = false) (hn : Next u v) (rest : Plays v rs us w) :
    Plays u rs (u :: us) w
  | answer {u w : Turn κ} {c : MethodCall κ} {s : Signal} {rs : List (Reply κ)} {us : List (Turn κ)}
    (hc : u.act = .call c) (rest : Plays (u.machine.receive s) rs us w) :
    Plays u ((c, s) :: rs) (u :: us) w

theorem Plays.trans {u v w : Turn κ} {rs rs' : List (Reply κ)} {us us' : List (Turn κ)}
    (h : Plays u rs us v) (h' : Plays v rs' us' w) : Plays u (rs ++ rs') (us ++ us') w := by
  induction h with
  | refl => exact h'
  | next hq hn _ ih => exact .next hq hn (ih h')
  | answer hc _ ih => exact .answer hc (ih h')

theorem Plays.unique {u v v' : Turn κ} {rs : List (Reply κ)} {us us' : List (Turn κ)}
    {c c' : MethodCall κ} (h : Plays u rs us v) (hv : v.act = .call c) (h' : Plays u rs us' v')
    (hv' : v'.act = .call c') : us = us' ∧ v = v' := by
  have hcall {x : Turn κ} {c : MethodCall κ} (hx : x.act = .call c) :
      x.act.isCallback ≠ false := by
    rw [hx]
    exact nofun
  induction h generalizing us' with
  | refl =>
    cases h' with
    | refl => exact ⟨rfl, rfl⟩
    | next hq => exact absurd hq (hcall hv)
  | @next u x w rs us hq hn _ ih =>
    cases h' with
    | refl => exact absurd hq (hcall hv')
    | next _ hn' rest' =>
      obtain rfl := hn.unique hn' fun r ps hr => by simp [hr, Act.isCallback] at hq
      obtain ⟨rfl, rfl⟩ := ih hv rest'
      exact ⟨rfl, rfl⟩
    | answer hc => exact absurd hq (hcall hc)
  | answer hc _ ih =>
    cases h' with
    | next hq => exact absurd hq (hcall hc)
    | answer _ rest' =>
      obtain ⟨rfl, rfl⟩ := ih hv rest'
      exact ⟨rfl, rfl⟩

end Turn

namespace Machine

/-- The frame that was active at a depth has collected no errors since. -/
def Unblamed (m x : Machine κ) : Prop :=
  (x.frameAt m.children.length).errors = m.active.errors

end Machine

namespace Turn

/-- A run as it is played, in which the frame that was active has collected no errors before the
last turn. -/
def PlaysOver (m : Machine κ) (u : Turn κ) (rs : List (Reply κ)) (w : Turn κ) : Prop :=
  ∃ us, Plays u rs us w ∧ ∀ x ∈ us, m.Unblamed x.machine

section
variable {m : Machine κ} {u v w : Turn κ} {rs rs' : List (Reply κ)}

theorem PlaysOver.refl (u : Turn κ) : PlaysOver m u [] u := ⟨[], .refl u, nofun⟩

theorem PlaysOver.trans (h : PlaysOver m u rs v) (h' : PlaysOver m v rs' w) :
    PlaysOver m u (rs ++ rs') w := by
  obtain ⟨us, hp, hm⟩ := h
  obtain ⟨us', hp', hm'⟩ := h'
  refine ⟨us ++ us', hp.trans hp', fun x hx => ?_⟩
  rcases List.mem_append.mp hx with hx | hx
  · exact hm x hx
  · exact hm' x hx

theorem PlaysOver.next (hu : m.Unblamed u.machine) (hq : u.act.isCallback = false) (hn : Next u v)
    (rest : PlaysOver m v rs w) : PlaysOver m u rs w := by
  obtain ⟨us, hp, hm⟩ := rest
  exact ⟨u :: us, .next hq hn hp, List.forall_mem_cons.mpr ⟨hu, hm⟩⟩

theorem PlaysOver.answer (hu : m.Unblamed u.machine) {c : MethodCall κ} {s : Signal}
    (hc : u.act = .call c) (rest : PlaysOver m (u.machine.receive s) rs w) :
    PlaysOver m u ((c, s) :: rs) w := by
  obtain ⟨us, hp, hm⟩ := rest
  exact ⟨u :: us, .answer hc hp, List.forall_mem_cons.mpr ⟨hu, hm⟩⟩

theorem PlaysOver.turn {x : Machine κ} {ns : List Notice} {t : Task κ} {windingUp : Bool}
    (hx : m.Unblamed x) (h : x.turn t windingUp = v) (rest : PlaysOver m v rs w) :
    PlaysOver m ⟨x, ns, .work t windingUp⟩ rs w := .next hx rfl (.of_turn rfl h) rest

end
end Turn

namespace Machine

def bodyAt (m : Machine κ) (s : Sequence κ) (cursor : Nat) (errors : List Json) : Machine κ :=
  m.above .loopBody { sequence := s, cursor, errors }

section
variable {m : Machine κ} {s : Sequence κ} {i : Nat} {es : List Json}

theorem ready_bodyAt (hp : m.parked = none) : (m.bodyAt s i es).Ready := ⟨hp, rfl, rfl⟩

theorem turn_next_bodyAt (hp : m.parked = none) {e : Entry κ} (he : s.entries[i]? = some e) :
    (m.bodyAt s i es).turn .next false =
      ⟨m.bodyAt s (i + 1) es, [], .work (.dispatch e none) false⟩ :=
  turn_of_go (step_next_some (ready_bodyAt hp) he) false

theorem turn_call_bodyAt (hp : m.parked = none) {e : Entry κ} {c : MethodCall κ} (he : e.Calls c)
    (hj : e.jump = none) :
    (m.bodyAt s i es).turn (.dispatch e none) false = ⟨m.bodyAt s i es, [], .call c⟩ := by
  have hstep : (m.bodyAt s i es).step (.dispatch e none) = (m.bodyAt s i es).invoke c := by
    have hready : (m.bodyAt s i es).Ready := ready_bodyAt hp
    have hm := hready.setJump_or hj
    cases he <;> exact congrArg (Machine.invoke · c) hm
  have ha : ((m.bodyAt s i es).step (.dispatch e none)).sequel.act? false = some (.call c) := by
    rw [hstep]
    rfl
  rw [turn_of_act? ha, hstep]
  rfl

theorem turn_errors_bodyAt (hb : s.breakOnError = false) (ws : List Json) (b : Bool) :
    (m.bodyAt s i es).turn (.errors ws b) false =
      ⟨m.bodyAt s i (es ++ ws), [], .work .next false⟩ := by
  refine turn_of_go ?_ false
  have hm : (m.bodyAt s i es).emit ws b =
      ((m.bodyAt s i es).recordErrors ws).go (if b && s.breakOnError then .leave else .next) := rfl
  rw [step, hm, hb, Bool.and_false]
  rfl

theorem turn_again_bodyAt (st : LoopState κ) (p : String) :
    ((m.pushConstruct (.loop st)).bodyAt s i es).turn (.proceed p) false =
      ⟨{ m.pushConstruct (.loop { st with errors := st.errors ++ es }) with
          parked := some .checkLoop },
        [.active (m.pushConstruct (.loop st)).activeSequence], .settle⟩ := by
  have hm : ((m.pushConstruct (.loop st)).bodyAt s i es).step (.proceed p) =
      ((m.pushConstruct (.loop st)).repeatBody es).noticing
        (m.pushConstruct (.loop st)).activeSequence := rfl
  rw [repeatBody_pushConstruct] at hm
  have ha : (((m.pushConstruct (.loop st)).bodyAt s i es).step (.proceed p)).sequel.act? false =
      some .settle := by
    rw [hm]
    rfl
  rw [turn_of_act? ha, hm]
  rfl

end

section
variable {m : Machine κ} {st : LoopState κ} {c : MethodCall κ}

theorem turn_checkLoop (hc : st.loop.control = .method c) :
    (m.pushConstruct (.loop st)).turn .checkLoop false =
      ⟨m.pushConstruct (.loop st), [], .call c⟩ := by
  have hstep : (m.pushConstruct (.loop st)).step .checkLoop =
      (m.pushConstruct (.loop st)).invoke c := checkLoop_pushLoop hc
  have ha : ((m.pushConstruct (.loop st)).step .checkLoop).sequel.act? false = some (.call c) := by
    rw [hstep]
    rfl
  rw [turn_of_act? ha, hstep]
  rfl

theorem turn_yes_pushLoop (hf : m.active.finished = false) (st : LoopState κ) (p : String) :
    ∃ ns, (m.pushConstruct (.loop st)).turn (.proceed p) false =
      ⟨(m.pushConstruct (.loop { st with ran := true })).bodyAt st.loop.block 0 [], ns,
        .work .next false⟩ := by
  have hstep := step_yes_pushLoop hf st p
  have ha : ((m.pushConstruct (.loop st)).step (.proceed p)).sequel.act? false =
      some (.work .next false) := by
    rw [hstep]
    rfl
  rw [turn_of_act? ha, hstep]
  exact ⟨_, rfl⟩

end

theorem unblamed_pushConstruct (m : Machine κ) (c : Construct κ) :
    m.Unblamed (m.pushConstruct c) := by
  have hat := (m.pushConstruct c).frameAt_length
  rw [length_children_pushConstruct] at hat
  rw [Unblamed, hat, active_pushConstruct]

theorem unblamed_bodyAt (m : Machine κ) (c : Construct κ) (s : Sequence κ) (i : Nat)
    (es : List Json) : m.Unblamed ((m.pushConstruct c).bodyAt s i es) := by
  have hup : (m.pushConstruct c).Upon .loopBody ((m.pushConstruct c).bodyAt s i es) :=
    ⟨rfl, [], _, rfl⟩
  have hat := hup.frameAt
  rw [length_children_pushConstruct] at hat
  rw [Unblamed, hat, active_pushConstruct]

end Machine

section
variable {m : Machine κ} {c : MethodCall κ} {l : Loop κ}

open Turn

section
variable {st : LoopState κ} {es : List (Entry κ)} {e : Entry κ} {i : Nat} {errors : List Json}
  {ns : List Notice} {rs : List (Reply κ)} {v : Turn κ}

theorem plays_entry (hp : m.parked = none) (hes : l.block.entries.drop i = e :: es)
    (rest : PlaysOver m ⟨(m.pushConstruct (.loop st)).bodyAt l.block (i + 1) errors, [],
      .work (.dispatch e none) false⟩ rs v) :
    PlaysOver m ⟨(m.pushConstruct (.loop st)).bodyAt l.block i errors, ns, .work .next false⟩
      rs v := by
  have hget : l.block.entries[i]? = some e := by
    rw [← List.head?_drop, hes]
    rfl
  have hpc : (m.pushConstruct (.loop st)).parked = none := by
    rw [Machine.parked_pushConstruct, hp]
  exact .turn (Machine.unblamed_bodyAt ..) (Machine.turn_next_bodyAt hpc hget) rest

theorem plays_call (hp : m.parked = none) (hes : l.block.entries.drop i = e :: es)
    (he : e.Calls c) (hj : e.jump = none) {s : Signal}
    (rest : PlaysOver m
      (((m.pushConstruct (.loop st)).bodyAt l.block (i + 1) errors).receive s) rs v) :
    PlaysOver m ⟨(m.pushConstruct (.loop st)).bodyAt l.block i errors, ns, .work .next false⟩
      ((c, s) :: rs) v := by
  have hpc : (m.pushConstruct (.loop st)).parked = none := by
    rw [Machine.parked_pushConstruct, hp]
  have hunblamed := m.unblamed_bodyAt (.loop st) l.block (i + 1) errors
  have called : PlaysOver m ⟨(m.pushConstruct (.loop st)).bodyAt l.block (i + 1) errors, [],
      .call c⟩ ((c, s) :: rs) v := .answer hunblamed rfl rest
  exact plays_entry hp hes (.turn hunblamed (Machine.turn_call_bodyAt hpc he hj) called)

end

/-- One round: what the entries emit is put with the errors of the loop, which is to be checked
again. -/
theorem Emits.plays {es : List (Entry κ)} {rs : List (Reply κ)} {vs : List Json}
    (h : Emits es rs vs) (hp : m.parked = none) (hb : l.block.breakOnError = false)
    (st : LoopState κ) (i : Nat) (hes : l.block.entries.drop i = es) (errors : List Json)
    (ns : List Notice) :
    ∃ ns', PlaysOver m
      ⟨(m.pushConstruct (.loop st)).bodyAt l.block i errors, ns, .work .next false⟩ rs
      ⟨{ m.pushConstruct (.loop { st with errors := st.errors ++ (errors ++ vs) }) with
          parked := some .checkLoop }, ns', .settle⟩ := by
  have htail {e : Entry κ} {es : List (Entry κ)} {i : Nat}
      (hes : l.block.entries.drop i = e :: es) : l.block.entries.drop (i + 1) = es := by
    rw [← List.tail_drop, hes]
    rfl
  have hunblamed (i : Nat) (errors : List Json) := m.unblamed_bodyAt (.loop st) l.block i errors
  induction h generalizing i errors ns with
  | again he hj =>
    rw [List.append_nil]
    exact ⟨_, plays_call hp hes he hj
      (.turn (hunblamed ..) (Machine.turn_again_bodyAt st "continue") (.refl _))⟩
  | passed he hj _ ih =>
    obtain ⟨ns', ih⟩ := ih (i + 1) (htail hes) errors []
    exact ⟨ns', plays_call hp hes he hj ih⟩
  | failed he hj ws _ ih =>
    obtain ⟨ns', ih⟩ := ih (i + 1) (htail hes) (errors ++ ws) []
    rw [List.append_assoc] at ih
    exact ⟨ns', plays_call hp hes he hj
      (.turn (hunblamed ..) (Machine.turn_errors_bodyAt hb ws true) ih)⟩
  | message label text b _ ih =>
    obtain ⟨ns', ih⟩ := ih (i + 1) (htail hes) (errors ++ [.string text]) []
    rw [List.append_assoc] at ih
    exact ⟨ns', plays_entry hp hes (.turn (hunblamed ..) (Machine.turn_of_go rfl false)
      (.turn (hunblamed ..) (Machine.turn_errors_bodyAt hb [.string text] b) ih))⟩

/-- The rounds of a loop put what they emit with its errors, one after the other. -/
theorem Rounds.plays {vss : List (List Json)} {rs : List (Reply κ)}
    (h : Rounds c l.block.entries vss rs) (hp : m.parked = none) (hf : m.active.finished = false)
    (hc : l.control = .method c) (hb : l.block.breakOnError = false) (errors : List Json)
    (ran : Bool) (ns : List Notice) :
    ∃ ns', PlaysOver m
      ⟨m.pushConstruct (.loop ⟨l, errors, ran⟩), ns, .call c⟩ rs
      ⟨m.pushConstruct (.loop ⟨l, errors ++ vss.flatten, ran || !vss.isEmpty⟩), ns', .call c⟩ := by
  induction h generalizing errors ran ns with
  | done =>
    rw [List.flatten_nil, List.append_nil, List.isEmpty_nil, Bool.not_true, Bool.or_false]
    exact ⟨ns, .refl _⟩
  | @round vs vss rs rs' h _ ih =>
    obtain ⟨ns₀, hyes⟩ := Machine.turn_yes_pushLoop hf ⟨l, errors, ran⟩ "true"
    obtain ⟨ns₁, hround⟩ := h.plays hp hb ⟨l, errors, true⟩ 0 rfl [] ns₀
    obtain ⟨ns₂, hrest⟩ := ih (errors ++ vs) true []
    have hpc : (m.pushConstruct (.loop ⟨l, errors ++ vs, true⟩)).parked = none := by
      rw [Machine.parked_pushConstruct, hp]
    have hcheck : PlaysOver m
        ⟨m.pushConstruct (.loop ⟨l, errors ++ vs, true⟩), [], .work .checkLoop false⟩ rs' _ :=
      .turn (m.unblamed_pushConstruct _) (Machine.turn_checkLoop hc) hrest
    have hbody := hround.trans
      (.next (m.unblamed_pushConstruct _) rfl (.of_parked hpc ns₁ .checkLoop) hcheck)
    have hanswer : PlaysOver m ((m.pushConstruct (.loop ⟨l, errors, ran⟩)).receive .yes) _ _ :=
      .turn (m.unblamed_pushConstruct _) hyes hbody
    rw [List.append_assoc] at hanswer
    rw [List.flatten_cons, List.isEmpty_cons, Bool.not_false, Bool.or_true]
    exact ⟨ns₂, .answer (m.unblamed_pushConstruct _) rfl hanswer⟩

end

namespace Turn

/-- Where a loop goes with its errors when it has run and is off the stack of its frame: to the
handler of successes, to that of errors with the errors dropped, on with the errors dropped, or to
its frame, which records the errors. -/
inductive Routed (l : Loop κ) (es : List Json) (v : Turn κ) : Prop
  | succeeded (he : es = []) (h : Next v ⟨v.machine, [], .work (branchTask l.onSuccess) false⟩)
  | handled {e : Entry κ} (he : es ≠ []) (ho : l.onError = some (.handler e))
    (h : Next v ⟨v.machine, [], .work (.dispatch e none) false⟩)
  | suppressed (he : es ≠ []) (ho : l.onError = some .suppress)
    (h : Next v ⟨v.machine, [], .work .next false⟩)
  | recorded {y : Turn κ} (he : es ≠ []) (ho : l.onError = none) (h : Next v y)
    (h' : Next y ⟨v.machine.recordErrors es, [],
      .work (if v.machine.active.sequence.breakOnError then .leave else .next) false⟩)

section
variable {m : Machine κ} {c : MethodCall κ} {l : Loop κ} {d : Turn κ} {fallback : Option String}
  {windingUp : Bool}

theorem routed_exitLoop (hf : m.active.finished = false) (hs : m.active.stack = [])
    (hm : m.setJump none = m) (hj : l.jump = none) (es : List Json) (ns : List Notice) :
    Routed l es ⟨m, ns, .work (.exitLoop ⟨l, es, true⟩) false⟩ := by
  have hresume : m.resumeAfterLoop l = m.go .next := by
    rw [Machine.resumeAfterLoop, hj, hm]
  cases es with
  | nil =>
    refine .succeeded rfl (.of_turn rfl (Machine.turn_of_go ?_ false))
    cases ho : l.onSuccess with
    | none => simp [Machine.step, Machine.exitLoop, ho, hresume, branchTask]
    | some e => simp [Machine.step, Machine.exitLoop, ho, hj, branchTask]
  | cons v vs =>
    cases ho : l.onError with
    | none =>
      have hexit : m.step (.exitLoop ⟨l, v :: vs, true⟩) = m.go (.errors (v :: vs) true) := by
        simp [Machine.step, Machine.exitLoop, ho]
      have hemit : m.step (.errors (v :: vs) true) = (m.recordErrors (v :: vs)).go
          (if m.active.sequence.breakOnError then .leave else .next) := by
        simp only [Machine.step, Machine.emit, hf, hs, Bool.false_eq_true, if_false, Bool.true_and]
      exact .recorded (List.cons_ne_nil v vs) ho (.of_turn rfl (Machine.turn_of_go hexit false))
        (.of_turn rfl (Machine.turn_of_go hemit false))
    | some failure =>
      cases failure with
      | suppress =>
        have hexit : m.step (.exitLoop ⟨l, v :: vs, true⟩) = m.go .next := by
          simp [Machine.step, Machine.exitLoop, ho, hresume]
        exact .suppressed (List.cons_ne_nil v vs) ho (.of_turn rfl (Machine.turn_of_go hexit false))
      | handler e =>
        have hexit : m.step (.exitLoop ⟨l, v :: vs, true⟩) = m.go (.dispatch e none) := by
          simp [Machine.step, Machine.exitLoop, ho, hj]
        exact .handled (List.cons_ne_nil v vs) ho (.of_turn rfl (Machine.turn_of_go hexit false))

theorem unblamed_setJump {m x : Machine κ} {j : Option String} :
    (m.setJump j).Unblamed x ↔ m.Unblamed x := by
  simp only [Machine.Unblamed, Machine.length_children_setJump, Machine.active_setJump]

/-- A loop without a jump whose control asks for some rounds and then stops it collects what each
round emits, in order; its frame is given none of it before all of it is routed at once. -/
theorem loop_errors_routed (hd : d.Occurs)
    (ha : d.act = .work (.dispatch (.loop l) fallback) windingUp) (hj : l.jump = none)
    (hc : l.control = .method c) (hb : l.block.breakOnError = false)
    (hs : d.machine.active.stack = []) {vss : List (List Json)} (hne : vss ≠ [])
    {rs : List (Reply κ)} (hr : Rounds c l.block.entries vss rs) :
    ∃ us u v, Plays d rs us u ∧ u.act = .call c ∧
      (∀ us' u' c', Plays d rs us' u' → u'.act = .call c' → us' = us ∧ u' = u) ∧
      (∀ y ∈ us ++ [u], d.machine.Unblamed y.machine) ∧
      Next (u.machine.receive .no) v ∧ v.machine = d.machine.setJump none ∧
      v.machine.active.stack = [] ∧ v.act = .work (.exitLoop ⟨l, vss.flatten, true⟩) false ∧
      Routed l vss.flatten v := by
  have hu := hd.underway_of_dispatch ha
  have hfin (j : Option String) : (d.machine.setJump j).active.finished = false := by
    rw [Machine.active_setJump]
    exact hu.active_finished ha
  have hp : (d.machine.setJump fallback).parked = none := by
    rw [Machine.parked_setJump]
    exact hu.parked ha
  obtain ⟨ns, us, hplay, hblame⟩ := hr.plays hp (hfin fallback) hc hb [] false []
  have hran : (false || !vss.isEmpty) = true := by
    cases vss with
    | nil => exact absurd rfl hne
    | cons => rfl
  rw [List.nil_append, hran] at hplay
  -- Dispatching the loop asks the control for the first time.
  have hasked : Next d ⟨(d.machine.setJump fallback).pushConstruct (.loop ⟨l, [], false⟩), [],
      .call c⟩ := by
    have hstep : d.machine.step (.dispatch (.loop l) fallback) =
        ((d.machine.setJump fallback).pushConstruct (.loop ⟨l, [], false⟩)).invoke c := by
      rw [← Machine.checkLoop_pushLoop hc, Machine.step, Machine.dispatch, Entry.jump, hj]
      rfl
    have hact : (d.machine.step (.dispatch (.loop l) fallback)).sequel.act? windingUp =
        some (.call c) := by
      rw [hstep]
      rfl
    refine .of_turn ha ((Machine.turn_of_act? hact).trans ?_)
    rw [hstep]
    rfl
  have hbusy : d.act.isCallback = false := by
    rw [ha]
    rfl
  have hall : Plays d rs (d :: us) _ := .next hbusy hasked hplay
  have hstop : Next (((d.machine.setJump fallback).pushConstruct
      (.loop ⟨l, vss.flatten, true⟩)).receive .no) _ :=
    .of_turn rfl (Machine.turn_of_go (Machine.step_no_pushLoop (hfin fallback) _) false)
  rw [Machine.setJump_setJump] at hstop
  have hstack : (d.machine.setJump none).active.stack = [] := by
    rw [Machine.active_setJump]
    exact hs
  refine ⟨d :: us, _, _, hall, rfl, fun us' u' c' h' hc' => ?_, ?_, hstop, rfl, hstack, rfl,
    routed_exitLoop (hfin none) hstack (Machine.setJump_setJump ..) hj _ _⟩
  · obtain ⟨rfl, rfl⟩ := hall.unique rfl h' hc'
    exact ⟨rfl, rfl⟩
  · intro y hy
    rcases List.mem_append.mp hy with hy | hy
    · rcases List.mem_cons.mp hy with rfl | hy
      · exact congrArg Frame.errors (Machine.frameAt_length _)
      · exact unblamed_setJump.mp (hblame y hy)
    · rw [List.mem_singleton.mp hy]
      exact unblamed_setJump.mp (Machine.unblamed_pushConstruct ..)

end

def grumbler : Loop Unit :=
  ⟨none, .method { operation := () },
    { entries := [.method { operation := () }, .error ⟨none, .message "late", none, true⟩,
        .method { operation := () }]
      breakOnError := false }, none, none, none⟩

theorem rounds_grumbler : Rounds { operation := () } grumbler.block.entries
    [[.string "bad", .string "late"], [.string "late"]]
    [({ operation := () }, .yes), ({ operation := () }, .errors [.string "bad"]),
      ({ operation := () }, .proceed), ({ operation := () }, .yes), ({ operation := () }, .next),
      ({ operation := () }, .proceed)] :=
  .round (.failed (.method _) rfl [.string "bad"]
      (.message none "late" true (.again (.method _) rfl)))
    (.round (.passed (.method _) rfl (.message none "late" true (.again (.method _) rfl))) .done)

theorem grumbler_errors_routed : ∃ (d : Turn Unit) (c : MethodCall Unit) (l : Loop Unit)
    (vss : List (List Json)) (rs : List (Reply Unit)), d.Occurs ∧
    d.act = .work (.dispatch (.loop l) none) false ∧ l.jump = none ∧ l.control = .method c ∧
    l.block.breakOnError = false ∧ d.machine.active.stack = [] ∧ vss ≠ [] ∧
    Rounds c l.block.entries vss rs ∧
    ∃ us u v, Plays d rs us u ∧ u.act = .call c ∧
      (∀ us' u' c', Plays d rs us' u' → u'.act = .call c' → us' = us ∧ u' = u) ∧
      (∀ y ∈ us ++ [u], d.machine.Unblamed y.machine) ∧
      Next (u.machine.receive .no) v ∧ v.machine = d.machine.setJump none ∧
      v.machine.active.stack = [] ∧ v.act = .work (.exitLoop ⟨l, vss.flatten, true⟩) false ∧
      Routed l vss.flatten v := by
  have hd : Occurs
      ((Machine.start ({ entries := [.loop grumbler] } : Sequence Unit)).turn .next false) :=
    ((Occurs.start _).receive rfl .next).next .work
  have hvss : [[Json.string "bad", .string "late"], [.string "late"]] ≠ [] := nofun
  exact ⟨_, _, grumbler, _, _, hd, rfl, rfl, rfl, rfl, rfl, hvss, rounds_grumbler,
    loop_errors_routed hd rfl rfl rfl rfl rfl hvss rounds_grumbler⟩

end Turn
end Sequencer
