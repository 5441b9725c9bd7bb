import Sequencer.Proofs.Machine.Attendance
import Sequencer.Proofs.Machine.Faults
import Sequencer.Proofs.Structured.Performance

/-! Where an answer arrives. Nested sequences in which nothing awaits an answer are left, and the
first frame that is none of them takes the answer: it has a construct on top, or it is the body of a
loop, or it is the root. A yes and a no arrive at the same frame, unless the no is turned into
errors on its way. -/

namespace Sequencer
variable {κ : Type}

/-- A nested sequence in which nothing awaits an answer leaves it to the sequence around it. -/
def Child.yields (c : Child κ) : Bool := decide (c.role = .nested) && c.frame.stack.isEmpty

theorem Child.yields_iff {c : Child κ} :
    c.yields = true ↔ c.role = .nested ∧ c.frame.stack = [] := by
  rw [yields, Bool.and_eq_true, decide_eq_true_iff, List.isEmpty_iff]

namespace Machine
variable {m : Machine κ} {c : Child κ} {cs : List (Child κ)} {t : Task κ}

def yielding (m : Machine κ) : List (Child κ) := m.children.takeWhile Child.yields

def target (m : Machine κ) : Machine κ := { m with children := m.children.dropWhile Child.yields }

def yielded (m : Machine κ) : List Json := m.yielding.reverse.flatMap fun c => c.frame.errors

theorem yielding_append_target (m : Machine κ) : m.yielding ++ m.target.children = m.children :=
  List.takeWhile_append_dropWhile

theorem yields_cons (hc : m.children = c :: cs) (hy : c.yields = true) :
    m.target = target { m with children := cs } ∧
      m.yielding = c :: yielding { m with children := cs } ∧
      m.yielded = yielded { m with children := cs } ++ c.frame.errors := by
  have hyielding : m.yielding = c :: yielding { m with children := cs } := by
    simp only [yielding, hc, List.takeWhile_cons, hy, if_true]
  refine ⟨by simp only [target, hc, List.dropWhile_cons, hy, if_true], hyielding, ?_⟩
  rw [yielded, hyielding, List.reverse_cons, List.flatMap_append, List.flatMap_singleton]
  rfl

theorem target_of_yielding_nil (h : m.yielding = []) : m.target = m ∧ m.yielded = [] := by
  have htarget := m.yielding_append_target
  rw [h, List.nil_append] at htarget
  exact ⟨congrArg (Machine.mk m.root · m.parked) htarget, by rw [yielded, h]; rfl⟩

theorem yielding_eq_nil (h : ∀ c cs, m.children = c :: cs → c.yields = false) :
    m.yielding = [] := by
  cases hc : m.children with
  | nil => simp [yielding, hc]
  | cons c cs => simp [yielding, hc, h c cs hc]

theorem yields_cases (m : Machine κ) : (∃ c cs, m.children = c :: cs ∧ c.yields = true) ∨
    ∀ c cs, m.children = c :: cs → c.yields = false := by
  refine or_iff_not_imp_left.mpr fun h c cs hc => ?_
  simpa using fun hy => h ⟨c, cs, hc, hy⟩

theorem yields_recordErrors {es : List Json}
    (h : ∀ c cs, m.children = c :: cs → c.yields = false)
    (hc : (m.recordErrors es).children = c :: cs) : c.yields = false := by
  obtain ⟨r, ds, p⟩ := m
  cases ds with
  | nil => exact absurd hc nofun
  | cons d ds =>
    obtain ⟨rfl, rfl⟩ := List.cons.inj hc
    exact h d ds rfl

theorem target_recordErrors (m : Machine κ) (es : List Json) :
    (m.recordErrors es).target.recordErrors (m.recordErrors es).yielded =
        m.target.recordErrors (m.yielded ++ es) ∧
      (m.recordErrors es).yielding.length = m.yielding.length := by
  rcases m.yields_cases with ⟨c, cs, hc, hy⟩ | hnot
  · obtain ⟨ht, hs, he⟩ := yields_cons hc hy
    obtain ⟨r, ds, p⟩ := m
    obtain rfl : ds = c :: cs := hc
    have hy' : Child.yields { c with frame := c.frame.record es } = true := hy
    obtain ⟨ht', hs', he'⟩ := yields_cons
      (m := recordErrors { root := r, children := c :: cs, parked := p } es) rfl hy'
    rw [ht, ht', he, he', hs, hs', List.append_assoc]
    exact ⟨rfl, rfl⟩
  · have hs := yielding_eq_nil hnot
    have hs' : (m.recordErrors es).yielding = [] :=
      yielding_eq_nil fun c cs => yields_recordErrors hnot
    obtain ⟨ht, he⟩ := target_of_yielding_nil hs
    obtain ⟨ht', he'⟩ := target_of_yielding_nil hs'
    rw [ht, ht', hs, hs', he, he', recordErrors_nil]
    exact ⟨rfl, rfl⟩

theorem Live.suffix (h : m.Live) {as : List (Child κ)} (hc : m.children = as ++ cs) :
    Live { m with children := cs } := by
  induction as generalizing m with
  | nil => rwa [← show m.children = cs from hc]
  | cons a as ih =>
    exact ih (m := { m with children := as ++ cs }) (h.leaveChild hc) rfl

theorem Live.step_yields (h : m.Live) (hc : m.children = c :: cs) (hy : c.yields = true)
    (ht : (∃ p, t = .proceed p) ∨ t = .leave ∧ c.frame.errors = []) :
    m.step t = Move.noticing ((Machine.recordErrors { m with children := cs } c.frame.errors).go t)
      (activeSequence { m with children := cs }) := by
  obtain ⟨hrole, hstack⟩ := Child.yields_iff.mp hy
  have hf := h.active_finished
  obtain ⟨r, ds, q⟩ := m
  obtain rfl : ds = c :: cs := hc
  have hr : c.frame.finished = false := hf
  rcases ht with ⟨p, rfl⟩ | ⟨rfl, he⟩
  · simp [Machine.step, Machine.proceed, Machine.active, hr, hstack, hrole]
  · simp [Machine.step, Machine.leave, Machine.setJump, Machine.modifyActive, Machine.active, hr,
      hstack, hrole, he, emitOr, recordErrors_nil]

/-- An answer is passed down frame by frame, with the errors of the frames that are left. -/
theorem Live.path_target (h : m.Live)
    (ht : (∃ p, t = .proceed p) ∨ t = .leave ∧ ∀ c ∈ m.yielding, c.frame.errors = [])
    (ns : List Notice) :
    ∃ us ns', Turn.Path ⟨m, ns, .work t false⟩ us
        ⟨m.target.recordErrors m.yielded, ns', .work t false⟩ ∧
      us.length = m.yielding.length ∧ ∀ b ∈ us, b.act = .work t false := by
  induction hn : m.yielding.length generalizing m ns with
  | zero =>
    obtain ⟨htarget, hyielded⟩ := target_of_yielding_nil (List.length_eq_zero_iff.mp hn)
    rw [htarget, hyielded, recordErrors_nil]
    exact ⟨[], ns, .refl _, rfl, List.forall_mem_nil _⟩
  | succ n ih =>
    obtain ⟨c, cs, hc, hy⟩ : ∃ c cs, m.children = c :: cs ∧ c.yields = true := by
      refine m.yields_cases.resolve_right fun hnot => ?_
      rw [yielding_eq_nil hnot] at hn
      exact absurd hn nofun
    obtain ⟨htarget, hyielding, hyielded⟩ := yields_cons hc hy
    have hturn : m.turn t false = _ := turn_of_step (h.step_yields hc hy (ht.imp_right
      fun ⟨hl, he⟩ => ⟨hl, he c (hyielding ▸ List.mem_cons_self ..)⟩)) rfl
    obtain ⟨hrec, hlen⟩ := target_recordErrors { m with children := cs } c.frame.errors
    have ht' : (∃ p, t = .proceed p) ∨ t = .leave ∧
        ∀ d ∈ (Machine.recordErrors { m with children := cs } c.frame.errors).yielding,
          d.frame.errors = [] := by
      refine ht.imp_right fun ⟨hl, he⟩ => ⟨hl, fun d hd => he d ?_⟩
      rw [he c (hyielding ▸ List.mem_cons_self ..), recordErrors_nil] at hd
      exact hyielding ▸ List.mem_cons_of_mem _ hd
    obtain ⟨us, ns', path, hus, hacts⟩ := ih ((h.leaveChild hc).recordErrors _) ht'
      [.active (activeSequence { m with children := cs })]
      (by rw [hlen]; rw [hyielding] at hn; exact Nat.succ.inj hn)
    rw [hrec, ← hyielded, ← htarget] at path
    refine ⟨_, ns', .cons .work (hturn ▸ path), by rw [List.length_cons, hus], ?_⟩
    exact List.forall_mem_cons.mpr ⟨rfl, hacts⟩

theorem yields_target (hc : m.target.children = c :: cs) : c.yields = false := by
  have hhead := List.head?_dropWhile_not Child.yields m.children
  rwa [show m.children.dropWhile Child.yields = c :: cs from hc] at hhead

inductive Proceeds (m : Machine κ) (primitive : String) : Turn κ → Prop
  | conditional {c : Conditional κ} {r : List (Construct κ)} {ns : List Notice}
    (h : m.active.stack = .conditional c :: r) :
    Proceeds m primitive ⟨m.setStack r, ns, .work (branchTask c.whenTrue) false⟩
  | loop {st : LoopState κ} {r : List (Construct κ)} {ns : List Notice}
    (h : m.active.stack = .loop st :: r) :
    Proceeds m primitive
      ⟨(m.setStack (.loop { st with ran := true } :: r)).enter .loopBody st.loop.block, ns,
        .work .next false⟩
  | body {c : Child κ} {cs : List (Child κ)} {st : LoopState κ} {r : List (Construct κ)}
    {x : Machine κ} {ns : List Notice} (hs : m.active.stack = []) (hc : m.children = c :: cs)
    (hrole : c.role = .loopBody) (hl : (active { m with children := cs }).stack = .loop st :: r)
    (hx : x = setStack { m with children := cs }
      (.loop { st with errors := st.errors ++ c.frame.errors } :: r))
    (again : Turn.Next ⟨{ x with parked := some .checkLoop }, ns, .settle⟩
      ⟨x, [], .work .checkLoop false⟩) :
    Proceeds m primitive ⟨{ x with parked := some .checkLoop }, ns, .settle⟩
  | root {v : Turn κ} (hs : m.active.stack = []) (hc : m.children = [])
    (ends : v.EndsWith (m.root.errors ++ [.string (Fault.noConstruct primitive).message])) :
    Proceeds m primitive v

inductive Leaves (m : Machine κ) : Turn κ → Prop
  | conditional {c : Conditional κ} {r : List (Construct κ)} {ns : List Notice}
    (h : m.active.stack = .conditional c :: r) :
    Leaves m ⟨(m.setJump none).setStack r, ns, .work (branchTask c.whenFalse) false⟩
  | loop {st : LoopState κ} {r : List (Construct κ)} {ns : List Notice}
    (h : m.active.stack = .loop st :: r) :
    Leaves m ⟨(m.setJump none).setStack r, ns, .work (.exitLoop st) false⟩
  | body {c : Child κ} {cs : List (Child κ)} {st : LoopState κ} {r : List (Construct κ)}
    {ns : List Notice} (hs : m.active.stack = []) (hc : m.children = c :: cs)
    (hrole : c.role = .loopBody) (hl : (active { m with children := cs }).stack = .loop st :: r) :
    Leaves m ⟨setStack { m with children := cs } r, ns,
      .work (.exitLoop { st with errors := st.errors ++ c.frame.errors }) false⟩
  | root {v : Turn κ} (hs : m.active.stack = []) (hc : m.children = [])
    (ends : v.EndsWith m.root.errors) : Leaves m v

section Frames
variable {i : Nat}

theorem frameAt_suffix {as : List (Child κ)} (hc : m.children = as ++ cs) (hi : i ≤ cs.length) :
    frameAt { m with children := cs } i = m.frameAt i := by
  have hlen : (as ++ cs).length - i = as.length + (cs.length - i) := by
    rw [List.length_append]
    omega
  rw [frameAt, frameAt, hc, hlen, List.drop_length_add_append]

theorem frameAt_modifyActive (m : Machine κ) (f : Frame κ → Frame κ)
    (hi : i < m.children.length) : (m.modifyActive f).frameAt i = m.frameAt i := by
  obtain ⟨r, ds, p⟩ := m
  cases ds with
  | nil => exact absurd hi (Nat.not_lt_zero i)
  | cons d ds =>
    have hle : i ≤ ds.length := Nat.le_of_lt_succ hi
    have hnew : frameAt ⟨r, ds, p⟩ i = frameAt (modifyActive ⟨r, d :: ds, p⟩ f) i :=
      frameAt_suffix (m := modifyActive ⟨r, d :: ds, p⟩ f) (List.singleton_append.symm) hle
    have hold : frameAt ⟨r, ds, p⟩ i = frameAt ⟨r, d :: ds, p⟩ i :=
      frameAt_suffix (m := ⟨r, d :: ds, p⟩) (List.singleton_append.symm) hle
    rw [← hnew, hold]

theorem frameAt_enter (m : Machine κ) (role : Role) (s : Sequence κ) (hi : i ≤ m.children.length) :
    (m.enter role s).frameAt i = m.frameAt i :=
  (frameAt_suffix (m := m.enter role s) List.singleton_append.symm hi).symm

theorem frameAt_of_body (hc : m.children = c :: cs) (hs : m.active.stack = [])
    (hi : m.active.stack ≠ [] ∨ i + 1 < m.children.length) (f : Frame κ → Frame κ) :
    (modifyActive { m with children := cs } f).frameAt i = m.frameAt i := by
  have hlt : i < cs.length := by
    have hlen := hi.resolve_left fun hne => hne hs
    rw [hc, List.length_cons] at hlen
    omega
  have hbelow : Machine.frameAt { m with children := cs } i = m.frameAt i :=
    frameAt_suffix (hc.trans List.singleton_append.symm) (Nat.le_of_lt hlt)
  rw [← hbelow]
  exact frameAt_modifyActive { m with children := cs } f hlt

theorem Proceeds.frameAt {primitive : String} {v : Turn κ} (h : m.Proceeds primitive v)
    (hi : i < m.children.length) (hs : m.active.stack ≠ [] ∨ i + 1 < m.children.length) :
    v.machine.frameAt i = m.frameAt i := by
  cases h with
  | conditional => exact frameAt_modifyActive m _ hi
  | loop h =>
    refine (frameAt_enter _ _ _ ?_).trans (frameAt_modifyActive m _ hi)
    rw [setStack, length_children_modifyActive]
    exact Nat.le_of_lt hi
  | body hnil hc _ _ hx => exact hx ▸ frameAt_of_body hc hnil hs _
  | root _ hc => exact absurd hi (by simp [hc])

theorem Leaves.frameAt {v : Turn κ} (h : m.Leaves v) (hi : i < m.children.length)
    (hs : m.active.stack ≠ [] ∨ i + 1 < m.children.length) :
    v.machine.frameAt i = m.frameAt i := by
  have hjump : (m.setJump none).frameAt i = m.frameAt i := frameAt_modifyActive m _ hi
  have hlen : i < (m.setJump none).children.length := by
    rwa [setJump, length_children_modifyActive]
  cases h with
  | conditional => exact (frameAt_modifyActive _ _ hlen).trans hjump
  | loop => exact (frameAt_modifyActive _ _ hlen).trans hjump
  | body hnil hc => exact frameAt_of_body hc hnil hs _
  | root _ hc => exact absurd hi (by simp [hc])

end Frames

theorem Live.step_leave_body (h : m.Live) (hs : m.active.stack = [])
    (hc : m.children = c :: cs) {st : LoopState κ} {r : List (Construct κ)}
    (hrole : c.role = .loopBody)
    (hl : (Machine.active { m with children := cs }).stack = .loop st :: r) :
    m.step .leave = Move.noticing
      (Machine.go (Machine.setStack { m with children := cs } r)
        (.exitLoop { st with errors := st.errors ++ c.frame.errors }))
      (Machine.activeSequence { m with children := cs }) := by
  have hf := h.active_finished
  obtain ⟨rt, ds, p⟩ := m
  obtain rfl : ds = c :: cs := hc
  have hnil : c.frame.stack = [] := hs
  have hrun : c.frame.finished = false := hf
  have hexit (es : List Json) : Machine.exitBody ⟨rt, cs, p⟩ es =
      Machine.go (Machine.setStack ⟨rt, cs, p⟩ r)
        (.exitLoop { st with errors := st.errors ++ es }) := by
    simp only [Machine.exitBody, hl]
  simp [Machine.step, Machine.leave, Machine.active, Machine.setJump, Machine.modifyActive, hrun,
    hnil, hrole, hexit]

section Arrival
variable (h : m.Live) (hy : ∀ c cs, m.children = c :: cs → c.yields = false)
include h hy

theorem Live.role_of_stack_nil (hs : m.active.stack = []) (hc : m.children = c :: cs) :
    c.role = .loopBody ∧
      ∃ st r, (Machine.active { m with children := cs }).stack = .loop st :: r := by
  have hstack : c.frame.stack = [] := by
    obtain ⟨r, ds, p⟩ := m
    obtain rfl : ds = c :: cs := hc
    exact hs
  have hrole : c.role = .loopBody := by
    cases hr : c.role with
    | loopBody => rfl
    | nested =>
      have hyes := Child.yields_iff.mpr ⟨hr, hstack⟩
      exact absurd (hyes.symm.trans (hy c cs hc)) nofun
  obtain ⟨st, r, hl, -⟩ := h.body hc hrole
  exact ⟨hrole, st, r, hl⟩

variable (hp : m.parked = none)
include hp

theorem Live.proceeds (primitive : String) :
    m.Proceeds primitive (m.turn (.proceed primitive) false) := by
  have hf := h.active_finished
  cases hs : m.active.stack with
  | cons x r =>
    cases x with
    | conditional c =>
      have hstep : m.step (.proceed primitive) = (m.setStack r).go (branchTask c.whenTrue) := by
        simp [Machine.step, Machine.proceed, hf, hs, branch_eq]
      rw [turn_of_go hstep]
      exact .conditional hs
    | loop st =>
      have hstep : m.step (.proceed primitive) =
          (m.setStack (.loop { st with ran := true } :: r)).descend .loopBody st.loop.block := by
        simp [Machine.step, Machine.proceed, hf, hs, Machine.runBlock]
      rw [turn_of_step hstep rfl]
      exact .loop hs
  | nil =>
    cases hc : m.children with
    | nil =>
      have hq : (m.step (.proceed primitive)).sequel = .fault (.noConstruct primitive) := by
        simp [Machine.step, Machine.proceed, hf, hs, hc, raise]
      have ht : (Task.proceed primitive).Fits m := trivial
      obtain ⟨-, ns', he⟩ := h.next_of_fault hp ht (fun hw => absurd hw Bool.false_ne_true) hq
      have hends := (live_foldFault h.unfinished (.noConstruct primitive)).endsWith hp ns' true
      rw [m.gathered_foldFault, show m.gathered = m.root.errors by simp [gathered, hc]] at hends
      rw [he]
      exact .root hs hc hends
    | cons c cs =>
      obtain ⟨hrole, st, r, hl⟩ := h.role_of_stack_nil hy hs hc
      have hstep : m.step (.proceed primitive) = Move.noticing
          (Machine.park (Machine.setStack { m with children := cs }
            (.loop { st with errors := st.errors ++ c.frame.errors } :: r)) .checkLoop)
          (Machine.activeSequence { m with children := cs }) := by
        simp [Machine.step, Machine.proceed, hf, hs, hc, hrole, Machine.repeatBody, hl]
      rw [turn_of_step hstep rfl]
      refine .body hs hc hrole hl rfl (Turn.Next.of_parked ?_ _ _)
      exact (parked_setStack ..).trans hp

theorem Live.leaves : m.Leaves (m.turn .leave false) := by
  have hf := h.active_finished
  have hjump : (m.setJump none).active.stack = m.active.stack := by rw [active_setJump]
  cases hs : m.active.stack with
  | cons x r =>
    rw [hs] at hjump
    cases x with
    | conditional c =>
      have hstep : m.step .leave =
          ((m.setJump none).setStack r).go (branchTask c.whenFalse) := by
        simp [Machine.step, Machine.leave, hf, hs, branch_eq]
      rw [turn_of_go hstep]
      exact .conditional hs
    | loop st =>
      have hstep : m.step .leave = ((m.setJump none).setStack r).go (.exitLoop st) := by
        simp [Machine.step, Machine.leave, hf, hs]
      rw [turn_of_go hstep]
      exact .loop hs
  | nil =>
    cases hc : m.children with
    | nil =>
      have hcj : (m.setJump none).children = [] := by
        obtain ⟨r, ds, p⟩ := m
        obtain rfl : ds = [] := hc
        rfl
      have hstep : m.step .leave = (m.setJump none).go .finish := by
        simp [Machine.step, Machine.leave, hf, hs, hcj]
      have hends := (h.setJump none).endsWith ((parked_setJump ..).trans hp) [] false
      have hg : (m.setJump none).gathered = m.root.errors := by
        obtain ⟨r, ds, p⟩ := m
        obtain rfl : ds = [] := hc
        exact List.append_nil _
      rw [turn_of_go hstep]
      exact .root hs hc (hg ▸ hends)
    | cons c cs =>
      obtain ⟨hrole, st, r, hl⟩ := h.role_of_stack_nil hy hs hc
      rw [turn_of_step (h.step_leave_body hs hc hrole hl) rfl]
      exact .body hs hc hrole hl

end Arrival

theorem frameAt_target (m : Machine κ) {i : Nat} (hi : i < m.target.children.length) :
    m.target.frameAt i = m.frameAt i :=
  frameAt_suffix m.yielding_append_target.symm (Nat.le_of_lt hi)

/-- The task is passed down to the target, frame by frame, and the turn is what the target does with
it. The frames below are as they were, but for the loop whose body the target is. -/
def Arrives (m n : Machine κ) (t : Task κ) (v : Turn κ) : Prop :=
  (∃ us ns, Turn.Path ⟨m, [], .work t false⟩ us ⟨n, ns, .work t false⟩ ∧
    us.length = m.yielding.length ∧ (∀ b ∈ us, b.act = .work t false) ∧
    Turn.Next ⟨n, ns, .work t false⟩ v) ∧
  ∀ i < m.target.children.length,
    m.target.active.stack ≠ [] ∨ i + 1 < m.target.children.length →
      v.machine.frameAt i = m.frameAt i

/-- A yes and a no unwind to the same frame and are dealt with there. A yes hands down the errors of
the frames that are left; so that a no gets there too, these must have none. -/
theorem answers_unwind_to_target (h : m.Reachable) (hu : m.isFinished = false) :
    (∀ s primitive, (s, primitive) ∈ [(Signal.proceed, "continue"), (Signal.yes, "true")] →
      ∃ v, m.Arrives (m.target.recordErrors m.yielded) s.task v ∧
        (m.target.recordErrors m.yielded).Proceeds primitive v) ∧
    ((∀ c ∈ m.yielding, c.frame.errors = []) → ∀ s ∈ [Signal.leave, Signal.no],
      ∃ v, m.Arrives m.target s.task v ∧ m.target.Leaves v) := by
  have hlive := h.wellFormed.live hu
  have hp := h.wellFormed.parked
  have htarget : m.target.Live := hlive.suffix m.yielding_append_target.symm
  refine ⟨fun s primitive hs => ?_, fun hnone s hs => ?_⟩
  · have hst : s.task = (.proceed primitive : Task κ) := by
      simp only [List.mem_cons, Prod.mk.injEq, List.not_mem_nil, or_false] at hs
      rcases hs with ⟨rfl, rfl⟩ | ⟨rfl, rfl⟩ <;> rfl
    rw [hst]
    obtain ⟨us, ns, path, hlen, hacts⟩ := hlive.path_target (.inl ⟨primitive, rfl⟩) []
    have hv := (htarget.recordErrors m.yielded).proceeds
      (fun c cs => yields_recordErrors fun c cs => yields_target)
      ((parked_recordErrors ..).trans hp) primitive
    refine ⟨_, ⟨⟨us, ns, path, hlen, hacts, .work⟩, fun i hi hstack => ?_⟩, hv⟩
    have hin : i < (m.target.recordErrors m.yielded).children.length := by
      rwa [recordErrors, length_children_modifyActive]
    rw [hv.frameAt hin (by simpa [recordErrors, Frame.record] using hstack)]
    exact (frameAt_modifyActive m.target _ hi).trans (m.frameAt_target hi)
  · have hst : s.task = (.leave : Task κ) := by
      simp only [List.mem_cons, List.not_mem_nil, or_false] at hs
      rcases hs with rfl | rfl <;> rfl
    rw [hst]
    obtain ⟨us, ns, path, hlen, hacts⟩ := hlive.path_target (.inr ⟨rfl, hnone⟩) []
    have hnil : m.yielded = [] := by
      simpa [yielded] using hnone
    rw [hnil, recordErrors_nil] at path
    have hv := htarget.leaves (fun c cs => yields_target) hp
    refine ⟨_, ⟨⟨us, ns, path, hlen, hacts, .work⟩, fun i hi hstack => ?_⟩, hv⟩
    rw [hv.frameAt hi hstack, m.frameAt_target hi]

end Machine

def burrow (before : List (Entry Unit)) : Sequence Unit :=
  { entries := before ++ [.sequence ⟨none, { entries := [.method { operation := () }] }, none⟩] }

def burrowing (before : List (Entry Unit)) : Loop Unit :=
  ⟨none, .always, { entries := [.error ⟨none, .message "body", none, false⟩,
    .sequence ⟨none, burrow before, none⟩] }, none, none, none⟩

def warren (before : List (Entry Unit)) : Sequence Unit :=
  { entries := [.sequence ⟨none, { entries := [.loop (burrowing before)] }, none⟩] }

/-- The operation has been called; the sequence around it has recorded some errors. -/
def warrenAtWork (before : List (Entry Unit)) (errors : List Json) : Machine Unit :=
  { root := { sequence := warren before, cursor := 1 }
    children := [
      ⟨.nested, { sequence := { entries := [.method { operation := () }] }, cursor := 1 }⟩,
      ⟨.nested, { sequence := burrow before, cursor := before.length + 1, errors }⟩,
      ⟨.loopBody, { sequence := (burrowing before).block, cursor := 2
                    errors := [.string "body"] }⟩,
      ⟨.nested, { sequence := { entries := [.loop (burrowing before)] }, cursor := 1
                  stack := [.loop { loop := burrowing before, ran := true }] }⟩] }

namespace Machine

theorem reachable_warren : (warrenAtWork [] []).Reachable := by
  have inner : Turn.Path ((start (warren [])).receive .next) _ _ :=
    .cons .work <| .cons .work <| .cons .work <| .cons .work <| .cons .work <| .cons .work <|
      .cons .work <| .refl _
  have path : Turn.Path _ _ ⟨warrenAtWork [] [], [], .call { operation := () }⟩ :=
    inner.trans <| .cons .work <| .cons .work <| .cons .work <| .cons .work <| .cons .work <|
      .cons .work <| .refl _
  exact ⟨_, ((reachable_start _).receive .next).path path, trivial, rfl⟩

theorem reachable_warren_deep :
    (warrenAtWork [.error ⟨none, .message "deep", none, false⟩] [.string "deep"]).Reachable := by
  have inner : Turn.Path ((start (warren [.error ⟨none, .message "deep", none, false⟩])).receive
      .next) _ _ :=
    .cons .work <| .cons .work <| .cons .work <| .cons .work <| .cons .work <| .cons .work <|
      .cons .work <| .cons .work <| .cons .work <| .cons .work <| .refl _
  have path : Turn.Path _ _
      ⟨warrenAtWork [.error ⟨none, .message "deep", none, false⟩] [.string "deep"], [],
        .call { operation := () }⟩ :=
    inner.trans <| .cons .work <| .cons .work <| .cons .work <| .cons .work <| .cons .work <|
      .cons .work <| .refl _
  exact ⟨_, ((reachable_start _).receive .next).path path, trivial, rfl⟩

/-- Two nested sequences are left, and the body of the loop takes the answer. -/
theorem warren_answers_unwind :
    (∃ m v, m = warrenAtWork [.error ⟨none, .message "deep", none, false⟩] [.string "deep"] ∧
      m.Reachable ∧ m.isFinished = false ∧ m.yielding.length = 2 ∧
      (m.target.recordErrors m.yielded).active.errors = [.string "body", .string "deep"] ∧
      m.Arrives (m.target.recordErrors m.yielded) Signal.proceed.task v ∧
      (m.target.recordErrors m.yielded).Proceeds "continue" v) ∧
    ∃ m v, m = warrenAtWork [] [] ∧ m.Reachable ∧ m.isFinished = false ∧ m.yielding.length = 2 ∧
      (∀ c ∈ m.yielding, c.frame.errors = []) ∧ m.target.active.errors = [.string "body"] ∧
      m.Arrives m.target Signal.leave.task v ∧ m.target.Leaves v := by
  obtain ⟨yes, -⟩ := answers_unwind_to_target reachable_warren_deep rfl
  obtain ⟨-, no⟩ := answers_unwind_to_target reachable_warren rfl
  have hnone : ∀ c ∈ (warrenAtWork [] []).yielding, c.frame.errors = [] := by
    simp [warrenAtWork, yielding, Child.yields, List.takeWhile]
  obtain ⟨v, harrives, hproceeds⟩ := yes .proceed "continue" (List.mem_cons_self ..)
  obtain ⟨w, harrives', hleaves⟩ := no hnone .leave (List.mem_cons_self ..)
  exact ⟨⟨_, v, rfl, reachable_warren_deep, rfl, rfl, rfl, harrives, hproceeds⟩,
    _, w, rfl, reachable_warren, rfl, rfl, hnone, rfl, harrives', hleaves⟩

end Machine
end Sequencer
