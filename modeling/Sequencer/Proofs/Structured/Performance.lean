import Sequencer.Machine.Step
import Sequencer.Proofs.Structured.Trace

/-! A machine performs the traces of structured programs. Whatever frames and constructs lie around
a part of a program, the machine goes through the calls of the part and comes back to them. -/

namespace Sequencer
variable {κ : Type}

/-- The machine gets from one task to another by the calls and answers of a trace. -/
inductive Performs : Machine κ → Task κ → List (Reply κ) → Machine κ → Task κ → Prop
  | refl (m : Machine κ) (t : Task κ) : Performs m t [] m t
  | go {m m' n : Machine κ} {t t' u : Task κ} {ns : List Notice} {rs : List (Reply κ)}
    (h : m.step t = ⟨m', ns, .task t'⟩) (rest : Performs m' t' rs n u) : Performs m t rs n u
  | unpark {m m' n : Machine κ} {t u : Task κ} {ns : List Notice} {p : Parked}
    {rs : List (Reply κ)} (h : m.step t = ⟨m', ns, .settle⟩) (hp : m'.parked = some p)
    (rest : Performs { m' with parked := none } p.task rs n u) : Performs m t rs n u
  | call {m m' n : Machine κ} {t u : Task κ} {ns : List Notice} {c : MethodCall κ} {s : Signal}
    {rs : List (Reply κ)} (h : m.step t = ⟨m', ns, .call c⟩) (hp : m'.parked = none)
    (rest : Performs m' s.task rs n u) : Performs m t ((c, s) :: rs) n u

theorem Performs.trans {a b c : Machine κ} {t u v : Task κ} {rs rs' : List (Reply κ)}
    (h : Performs a t rs b u) (h' : Performs b u rs' c v) : Performs a t (rs ++ rs') c v := by
  induction h with
  | refl => exact h'
  | go hs _ ih => exact .go hs (ih h')
  | unpark hs hp _ ih => exact .unpark hs hp (ih h')
  | call hs hp _ ih => exact .call hs hp (ih h')

namespace Machine
variable {m : Machine κ}

/-- The active frame may go on: there is no jump ahead of it. -/
structure Ready (m : Machine κ) : Prop where
  parked : m.parked = none
  running : m.active.finished = false
  jump : m.active.pendingJump = none

def above (m : Machine κ) (role : Role) (f : Frame κ) : Machine κ :=
  { m with children := ⟨role, f⟩ :: m.children }

theorem Ready.above (h : m.Ready) (role : Role) (f : Frame κ) (hf : f.finished = false)
    (hj : f.pendingJump = none) : (m.above role f).Ready := ⟨h.parked, hf, hj⟩

theorem Ready.setStack (h : m.Ready) (r : List (Construct κ)) : (m.setStack r).Ready := by
  refine ⟨(parked_setStack m r).trans h.parked, ?_, ?_⟩
  · rw [active_setStack]
    exact h.running
  · rw [active_setStack]
    exact h.jump

theorem modifyActive_of_eq {f : Frame κ → Frame κ} (h : f m.active = m.active) :
    m.modifyActive f = m := by
  obtain ⟨r, cs, p⟩ := m
  cases cs with
  | nil => exact congrArg (Machine.mk · [] p) h
  | cons c cs => exact congrArg (fun x => Machine.mk r (⟨c.role, x⟩ :: cs) p) h

theorem modifyActive_modifyActive (f g : Frame κ → Frame κ) :
    (m.modifyActive f).modifyActive g = m.modifyActive fun x => g (f x) := by
  obtain ⟨r, cs, p⟩ := m
  cases cs <;> rfl

theorem Ready.setJump (h : m.Ready) {jump : Option String} (hj : jump = none) :
    m.setJump jump = m := modifyActive_of_eq (by rw [hj, ← h.jump])

theorem Ready.setJump_or (h : m.Ready) {e : Entry κ} (hj : e.jump = none) :
    m.setJump (e.jump.or none) = m := h.setJump (by rw [hj]; rfl)

theorem setStack_active : m.setStack m.active.stack = m := modifyActive_of_eq rfl

theorem setStack_setStack (r r' : List (Construct κ)) :
    (m.setStack r).setStack r' = m.setStack r' := modifyActive_modifyActive ..

theorem pushConstruct_eq (x : Construct κ) :
    m.pushConstruct x = m.setStack (x :: m.active.stack) := by
  obtain ⟨r, cs, p⟩ := m
  cases cs <;> rfl

end Machine

def branchTask : Option (Entry κ) → Task κ
  | some e => .dispatch e none
  | none => .next

namespace Machine
variable {m : Machine κ}

theorem branch_eq (e : Option (Entry κ)) : m.branch e = m.go (branchTask e) := by
  cases e <;> rfl

theorem active_above (role : Role) (f : Frame κ) : (m.above role f).active = f := rfl

theorem children_above (role : Role) (f : Frame κ) :
    (m.above role f).children = ⟨role, f⟩ :: m.children := rfl

section Steps
variable {l : Loop κ} {c : MethodCall κ} {st : LoopState κ} {f : Frame κ}
  {r : List (Construct κ)}

theorem step_next (h : m.Ready) : m.step .next = m.advance := by
  simp only [step, next, h.running, h.jump, Bool.false_eq_true, if_false]

theorem step_next_some (h : m.Ready) {e : Entry κ}
    (he : m.active.sequence.entries[m.active.cursor]? = some e) :
    m.step .next =
      ⟨m.modifyActive fun f => { f with cursor := f.cursor + 1 }, [],
        .task (.dispatch e none)⟩ := by
  rw [step_next h, advance, he]
  rfl

theorem step_next_none (h : m.Ready)
    (he : m.active.sequence.entries[m.active.cursor]? = none) :
    m.step .next = ⟨m, [], .task .complete⟩ := by
  rw [step_next h, advance, he]
  rfl

theorem step_method (h : m.Ready) (hj : c.jump = none) :
    m.step (.dispatch (.method c) none) = ⟨m, [], .call c⟩ := by
  have hm : m.setJump ((Entry.method c).jump.or none) = m := h.setJump_or hj
  rw [step, dispatch, hm]
  rfl

theorem step_conditional (h : m.Ready) (c : Conditional κ) :
    m.step (.dispatch (.conditional c) none) =
      ⟨m.setStack (.conditional c :: m.active.stack), [], .call c.condition⟩ := by
  have hm : m.setJump ((Entry.conditional c).jump.or none) = m := h.setJump_or rfl
  rw [step, dispatch, hm, ← pushConstruct_eq]
  rfl

theorem step_yes (h : m.Ready) (c : Conditional κ) (p : String) :
    (m.setStack (.conditional c :: m.active.stack)).step (.proceed p) =
      ⟨m, [], .task (branchTask c.whenTrue)⟩ := by
  simp only [step, proceed, active_setStack, h.running, Bool.false_eq_true, if_false]
  rw [setStack_setStack, setStack_active, branch_eq]
  rfl

theorem step_no (h : m.Ready) (c : Conditional κ) :
    (m.setStack (.conditional c :: m.active.stack)).step .leave =
      ⟨m, [], .task (branchTask c.whenFalse)⟩ := by
  have hm := (h.setStack (.conditional c :: m.active.stack)).setJump rfl
  simp only [step, leave, hm]
  simp only [active_setStack, h.running, Bool.false_eq_true, if_false]
  rw [setStack_setStack, setStack_active, branch_eq]
  rfl

theorem step_sequence (h : m.Ready) {s : SequenceEntry κ} (hj : s.jump = none) :
    ∃ ns, m.step (.dispatch (.sequence s) none) =
      ⟨m.above .nested { sequence := s.sequence }, ns, .task .next⟩ := by
  have hm : m.setJump ((Entry.sequence s).jump.or none) = m := h.setJump_or hj
  refine ⟨[.active (m.above .nested { sequence := s.sequence }).activeSequence], ?_⟩
  rw [step, dispatch, hm]
  rfl

theorem step_complete (hs : f.stack = []) (he : f.errors = []) :
    ∃ ns, (m.above .nested f).step .complete = ⟨m, ns, .task .next⟩ := by
  refine ⟨[.active m.activeSequence], ?_⟩
  simp only [step, complete, active_above, children_above, hs, he]
  rfl

theorem step_loop (h : m.Ready) (hj : l.jump = none) :
    m.step (.dispatch (.loop l) none) =
      (m.setStack (.loop { loop := l } :: m.active.stack)).checkLoop := by
  have hm : m.setJump ((Entry.loop l).jump.or none) = m := h.setJump_or hj
  rw [step, dispatch, hm, ← pushConstruct_eq]

theorem checkLoop_method (hc : st.loop.control = .method c) :
    (m.setStack (.loop st :: r)).checkLoop = ⟨m.setStack (.loop st :: r), [], .call c⟩ := by
  simp only [checkLoop, active_setStack, hc]
  rfl

theorem step_again (h : m.Ready) (st : LoopState κ) (r : List (Construct κ)) (p : String) :
    ∃ ns, (m.setStack (.loop st :: r)).step (.proceed p) =
      ⟨(m.setStack (.loop { st with ran := true } :: r)).above .loopBody
        { sequence := st.loop.block }, ns, .task .next⟩ := by
  refine ⟨[.active ((m.setStack (.loop { st with ran := true } :: r)).above .loopBody
    { sequence := st.loop.block }).activeSequence], ?_⟩
  simp only [step, proceed, runBlock, active_setStack, h.running, Bool.false_eq_true, if_false]
  rw [setStack_setStack]
  rfl

theorem step_stop (h : m.Ready) (st : LoopState κ) :
    (m.setStack (.loop st :: m.active.stack)).step .leave = ⟨m, [], .task (.exitLoop st)⟩ := by
  have hm := (h.setStack (.loop st :: m.active.stack)).setJump rfl
  simp only [step, leave, hm]
  simp only [active_setStack, h.running, Bool.false_eq_true, if_false]
  rw [setStack_setStack, setStack_active]
  rfl

theorem step_repeat (m : Machine κ) (st : LoopState κ) (r : List (Construct κ))
    (hf : f.finished = false) (hs : f.stack = []) (he : f.errors = []) (p : String) :
    ∃ ns, ((m.setStack (.loop st :: r)).above .loopBody f).step (.proceed p) =
      ⟨{ m.setStack (.loop st :: r) with parked := some .checkLoop }, ns, .settle⟩ := by
  have hr : (m.setStack (.loop st :: r)).repeatBody [] =
      ⟨{ m.setStack (.loop st :: r) with parked := some .checkLoop }, [], .settle⟩ := by
    simp only [repeatBody, active_setStack, List.append_nil]
    rw [setStack_setStack]
    rfl
  refine ⟨[.active (m.setStack (.loop st :: r)).activeSequence], ?_⟩
  simp only [step, proceed, active_above, children_above, hf, hs, he, Bool.false_eq_true, if_false]
  exact congrArg (Move.noticing · _) hr

theorem step_exitLoop (h : m.Ready) (hj : l.jump = none) :
    m.step (.exitLoop { loop := l }) = ⟨m, [], .task .next⟩ := by
  simp [step, exitLoop, resumeAfterLoop, h.setJump hj, go]

theorem step_exitLoop_ran (h : m.Ready) (hj : l.jump = none) :
    m.step (.exitLoop { loop := l, ran := true }) = ⟨m, [], .task (branchTask l.onSuccess)⟩ := by
  cases ho : l.onSuccess with
  | none => simp [step, exitLoop, resumeAfterLoop, h.setJump hj, ho, go, branchTask]
  | some e => simp [step, exitLoop, ho, hj, go, branchTask]

end Steps
end Machine

/-- Whatever lies around a part of a program, a machine performs the part by a trace of it. Lists of
entries are performed where they stand in the active sequence, and the rounds of a loop from any
move that checks the loop. -/
def Part.PerformedBy (t : List (Reply κ)) : Part κ → Prop
  | .entry e => ∀ m : Machine κ, m.Ready → Performs m (.dispatch e none) t m .next
  | .branch e => ∀ m : Machine κ, m.Ready → Performs m (branchTask e) t m .next
  | .list es => ∀ m : Machine κ, m.Ready → ∀ before after,
      m.active.sequence.entries = before ++ es ++ after → m.active.cursor = before.length →
      Performs m .next t (m.modifyActive fun f => { f with cursor := f.cursor + es.length }) .next
  | .rounds l k => ∀ m : Machine κ, m.Ready → ∀ ran m₀ t₀,
      m₀.step t₀ = (m.setStack (.loop { loop := l, ran } :: m.active.stack)).checkLoop →
      Performs m₀ t₀ t m (.exitLoop { loop := l, ran := ran || decide (0 < k) })

namespace Machine

theorem Ready.modifyCursor {m : Machine κ} (h : m.Ready) (n : Nat) :
    (m.modifyActive fun f => { f with cursor := f.cursor + n }).Ready := by
  refine ⟨(parked_modifyActive ..).trans h.parked, ?_, ?_⟩
  · rw [active_modifyActive]
    exact h.running
  · rw [active_modifyActive]
    exact h.jump

end Machine

open Machine

theorem performs_cons {e : Entry κ} {es : List (Entry κ)} {t u : List (Reply κ)}
    (head : (Part.entry e).PerformedBy t) (tail : (Part.list es).PerformedBy u) :
    (Part.list (e :: es)).PerformedBy (t ++ u) := by
  intro m hm before after he hc
  have hget : m.active.sequence.entries[m.active.cursor]? = some e := by
    rw [he, hc]
    simp
  -- The entry leaves the machine as it found it, with the cursor at the tail.
  have htail := tail _ (hm.modifyCursor 1) (before ++ [e]) after
    (by rw [active_modifyActive, he]; simp) (by rw [active_modifyActive]; simp [hc])
  have hlast : (m.modifyActive fun f => { f with cursor := f.cursor + 1 }).modifyActive
      (fun f => { f with cursor := f.cursor + es.length }) =
      m.modifyActive fun f => { f with cursor := f.cursor + (e :: es).length } := by
    rw [modifyActive_modifyActive]
    simp only [List.length_cons, Nat.add_comm es.length 1, Nat.add_assoc]
  rw [hlast] at htail
  exact .go (step_next_some hm hget) ((head _ (hm.modifyCursor 1)).trans htail)

theorem performs_above {m : Machine κ} (hm : m.Ready) (role : Role) {s : Sequence κ}
    {es after : List (Entry κ)} {t : List (Reply κ)} (h : (Part.list es).PerformedBy t)
    (hs : s.entries = es ++ after) :
    Performs (m.above role { sequence := s }) .next t
      (m.above role { sequence := s, cursor := es.length }) .next := by
  have hp := h (m.above role { sequence := s }) (hm.above _ _ rfl rfl) [] after hs rfl
  have he : (m.above role { sequence := s }).modifyActive
      (fun f => { f with cursor := f.cursor + es.length }) =
      m.above role { sequence := s, cursor := es.length } := by
    simp only [Machine.modifyActive, Machine.above, Nat.zero_add]
  rwa [he] at hp

theorem performs_round {l : Loop κ} {c last : MethodCall κ} {es : List (Entry κ)} {k : Nat}
    {t u : List (Reply κ)} (hc : l.control = .method c)
    (hb : l.block.entries = es ++ [.method last]) (hj : last.jump = none)
    (block : (Part.list es).PerformedBy t) (rest : (Part.rounds l k).PerformedBy u) :
    (Part.rounds l (k + 1)).PerformedBy ((c, .yes) :: t ++ (last, .proceed) :: u) := by
  intro m hm ran m₀ t₀ h₀
  rw [checkLoop_method hc] at h₀
  have hp := (hm.setStack (.loop { loop := l, ran } :: m.active.stack)).parked
  obtain ⟨ns, hagain⟩ := step_again hm { loop := l, ran } m.active.stack "true"
  -- While the block runs, the loop below it has run.
  have hr := hm.setStack (.loop { loop := l, ran := true } :: m.active.stack)
  have hblock := performs_above hr .loopBody block hb
  have hat := hr.above .loopBody { sequence := l.block, cursor := es.length } rfl rfl
  have hpast := hr.above .loopBody { sequence := l.block, cursor := es.length + 1 } rfl rfl
  have hget : l.block.entries[es.length]? = some (.method last) := by
    rw [hb]
    simp
  obtain ⟨ns', hrepeat⟩ := @step_repeat _ { sequence := l.block, cursor := es.length + 1 } m
    { loop := l, ran := true } m.active.stack rfl rfl rfl "continue"
  have hunpark : { m.setStack (.loop { loop := l, ran := true } :: m.active.stack) with
      parked := none } = m.setStack (.loop { loop := l, ran := true } :: m.active.stack) := by
    rw [← hr.parked]
  -- Going on is parked; once it is taken up the loop is checked for the rounds that are left.
  have hrest := rest m hm true (m.setStack (.loop { loop := l, ran := true } :: m.active.stack))
    .checkLoop rfl
  rw [← hunpark] at hrest
  have hlast := Performs.go (step_next_some hat hget)
    (.call (s := .proceed) (step_method hpast hj) hpast.parked (.unpark hrepeat rfl hrest))
  have h := Performs.call (s := .yes) h₀ hp (.go hagain (hblock.trans hlast))
  simpa using h

theorem Trace.performed {p : Part κ} {t : List (Reply κ)} (h : Trace p t) : p.PerformedBy t := by
  induction h with
  | method hj => exact fun m hm => .call (step_method hm hj) hm.parked (.refl _ _)
  | @yes c t _ ih =>
    intro m hm
    refine .call (step_conditional hm c) (hm.setStack _).parked ?_
    exact .go (step_yes hm c "true") (ih m hm)
  | @no c t _ ih =>
    intro m hm
    refine .call (step_conditional hm c) (hm.setStack _).parked ?_
    exact .go (step_no hm c) (ih m hm)
  | @sequence s t hj _ ih =>
    intro m hm
    obtain ⟨ns, hs⟩ := step_sequence hm hj
    have hbody := performs_above hm .nested ih (List.append_nil _).symm
    have hend := step_next_none (hm.above .nested
      { sequence := s.sequence, cursor := s.sequence.entries.length } rfl rfl)
      (List.getElem?_eq_none (Nat.le_refl _))
    obtain ⟨ns', hc⟩ := @step_complete _ m
      { sequence := s.sequence, cursor := s.sequence.entries.length } rfl rfl
    have h := Performs.go hs (hbody.trans (.go hend (.go hc (.refl _ _))))
    rwa [List.append_nil] at h
  | skipped hj _ ih =>
    intro m hm
    have hr := ih m hm false _ _ (step_loop hm hj)
    have h := hr.trans (.go (step_exitLoop hm hj) (.refl _ _))
    rwa [List.append_nil] at h
  | @looped l k t u hj _ _ ih ihs =>
    intro m hm
    -- The first move is the check of the loop that dispatching it amounts to.
    have hr := ih m hm false _ _ (step_loop hm hj)
    rw [decide_eq_true (Nat.succ_pos k)] at hr
    exact hr.trans (.go (step_exitLoop_ran hm hj) (ihs m hm))
  | missing => exact fun m hm => .refl _ _
  | taken _ ih => exact ih
  | nil =>
    intro m hm before after he hc
    have hm' : m.modifyActive (fun f => { f with cursor := f.cursor + 0 }) = m :=
      modifyActive_of_eq rfl
    rw [List.length_nil, hm']
    exact .refl _ _
  | cons _ _ ihh iht => exact performs_cons ihh iht
  | @stop l c hc =>
    intro m hm ran m₀ t₀ h₀
    rw [checkLoop_method hc] at h₀
    rw [show (ran || decide (0 < 0)) = ran by simp]
    exact .call h₀ (hm.setStack _).parked (.go (step_stop hm { loop := l, ran }) (.refl _ _))
  | round hc hb hj _ _ ihb ihr => exact performs_round hc hb hj ihb ihr

end Sequencer
