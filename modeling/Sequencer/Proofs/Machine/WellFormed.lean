import Sequencer.Proofs.Machine.Turns

/-! Well-formed machines. While a run is live every loop body stands on the loop that runs it, and
the tasks that read the top of a stack find there what they expect. Each move keeps this, so no
move raises `noLoop` and winding up a run raises nothing. -/

namespace Sequencer
variable {κ : Type}

namespace Machine

/-- Every loop body stands directly above the loop that runs it. -/
def Borne (root : Frame κ) : List (Child κ) → Prop
  | [] => True
  | c :: cs =>
    (c.role = .loopBody → ∃ st r, (active { root, children := cs }).stack = .loop st :: r ∧
      st.ran = true ∧ st.loop.block = c.frame.sequence) ∧ Borne root cs

structure WellFormed (m : Machine κ) : Prop where
  parked : m.parked = none
  running : ∀ c ∈ m.children, c.frame.finished = false
  ended : m.root.finished = true → m.children = [] ∧ m.root.stack = []
  bodies : Borne m.root m.children

/-- The run is unfinished and its frames are in order; something may be parked. -/
structure Live (m : Machine κ) : Prop where
  unfinished : m.root.finished = false
  running : ∀ c ∈ m.children, c.frame.finished = false
  bodies : Borne m.root m.children

structure Over (m : Machine κ) : Prop where
  finished : m.root.finished = true
  children : m.children = []
  stack : m.root.stack = []
  parked : m.parked = none

theorem Live.wellFormed {m : Machine κ} (h : m.Live) (hp : m.parked = none) : m.WellFormed :=
  ⟨hp, h.running, fun hf => absurd (h.unfinished.symm.trans hf) nofun, h.bodies⟩

theorem Over.wellFormed {m : Machine κ} (h : m.Over) : m.WellFormed where
  parked := h.parked
  running c hc := by simp [h.children] at hc
  ended _ := ⟨h.children, h.stack⟩
  bodies := by rw [h.children]; trivial

theorem WellFormed.live {m : Machine κ} (h : m.WellFormed) (hu : m.isFinished = false) : m.Live :=
  ⟨hu, h.running, h.bodies⟩

theorem Live.isFinished {m : Machine κ} (h : m.Live) : m.isFinished = false := h.unfinished

theorem live_start (s : Sequence κ) : (start s).Live := ⟨rfl, nofun, trivial⟩

theorem Live.active_finished {m : Machine κ} (h : m.Live) : m.active.finished = false := by
  obtain ⟨r, cs, p⟩ := m
  cases cs with
  | nil => exact h.unfinished
  | cons c cs => exact h.running c (List.mem_cons_self ..)

theorem Over.active_finished {m : Machine κ} (h : m.Over) : m.active.finished = true := by
  obtain ⟨r, cs, p⟩ := m
  obtain rfl : cs = [] := h.children
  exact h.finished

section Operations
variable {m : Machine κ}

theorem Live.modifyActive (h : m.Live) {f : Frame κ → Frame κ}
    (hs : ∀ x, (f x).sequence = x.sequence) (hf : ∀ x, (f x).finished = x.finished) :
    (m.modifyActive f).Live := by
  obtain ⟨r, cs, p⟩ := m
  cases cs with
  | nil => exact ⟨(hf r).trans h.unfinished, nofun, trivial⟩
  | cons c cs =>
    refine ⟨h.unfinished, fun d hd => ?_, ?_⟩
    · rcases List.mem_cons.mp hd with rfl | hd
      · exact (hf _).trans (h.running c (List.mem_cons_self ..))
      · exact h.running d (List.mem_cons_of_mem _ hd)
    · simpa only [Machine.modifyActive, Borne, hs] using h.bodies

theorem Live.setStack (h : m.Live) (r : List (Construct κ)) : (m.setStack r).Live :=
  h.modifyActive (fun _ => rfl) fun _ => rfl

theorem Live.pushConstruct (h : m.Live) (c : Construct κ) : (m.pushConstruct c).Live :=
  h.modifyActive (fun _ => rfl) fun _ => rfl

theorem Live.setJump (h : m.Live) (j : Option String) : (m.setJump j).Live :=
  h.modifyActive (fun _ => rfl) fun _ => rfl

theorem Live.recordErrors (h : m.Live) (es : List Json) : (m.recordErrors es).Live :=
  h.modifyActive (fun _ => rfl) fun _ => rfl

theorem Live.withParked (h : m.Live) (p : Option Parked) : Live { m with parked := p } :=
  ⟨h.unfinished, h.running, h.bodies⟩

theorem Live.enter (h : m.Live) {role : Role} {s : Sequence κ}
    (hb : role = .loopBody → ∃ st r, m.active.stack = .loop st :: r ∧ st.ran = true ∧
      st.loop.block = s) : (m.enter role s).Live := by
  refine ⟨h.unfinished, fun c hc => ?_, hb, h.bodies⟩
  rcases List.mem_cons.mp hc with rfl | hc
  · rfl
  · exact h.running c hc

theorem Live.leaveChild (h : m.Live) {c : Child κ} {cs : List (Child κ)}
    (hc : m.children = c :: cs) : Live { m with children := cs } := by
  obtain ⟨hu, hr, hb⟩ := h
  rw [hc] at hr hb
  exact ⟨hu, fun d hd => hr d (List.mem_cons_of_mem _ hd), hb.2⟩

theorem Live.body (h : m.Live) {c : Child κ} {cs : List (Child κ)} (hc : m.children = c :: cs)
    (hrole : c.role = .loopBody) :
    ∃ st r, (active { m with children := cs }).stack = .loop st :: r ∧ st.ran = true ∧
      st.loop.block = c.frame.sequence := by
  have hb := h.bodies
  rw [hc] at hb
  exact hb.1 hrole

theorem live_foldFault (h : m.root.finished = false) (f : Fault) : (m.foldFault f).Live :=
  ⟨h, nofun, trivial⟩

end Operations

end Machine
end Sequencer
