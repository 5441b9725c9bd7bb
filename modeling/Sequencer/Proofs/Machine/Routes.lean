import Sequencer.Proofs.Machine.Faults
import Sequencer.Proofs.Program.Filing
import Sequencer.Proofs.Structured.Performance

/-! Going to a label. A text gets to the active frame with a signal, as a jump, or from an entry
that has it or has it answered. On every route it is the cleaned text alone that says where to go:
to what one of three primitives does, or to the last entry of the active frame that carries the
label. -/

namespace Sequencer
variable {κ : Type}

def Label.primitives : List (String × Signal) :=
  [("continue", .proceed), ("break", .leave), ("end", .finish)]

theorem Label.primitive_cases {l : String} {sig : Signal} (h : (l, sig) ∈ primitives) :
    l = "continue" ∧ sig = .proceed ∨ l = "break" ∧ sig = .leave ∨ l = "end" ∧ sig = .finish := by
  simpa [primitives] using h

theorem Label.primitive_unique {l : String} {sig sig' : Signal} (h : (l, sig) ∈ primitives)
    (h' : (l, sig') ∈ primitives) : sig = sig' := by
  rcases primitive_cases h with ⟨rfl, rfl⟩ | ⟨rfl, rfl⟩ | ⟨rfl, rfl⟩
  all_goals simpa [primitives, eq_comm] using h'

namespace Turn

/-- In the turn a text comes to the active frame as a place to go to; the frame goes there in the
state given. -/
inductive Routes (text : String) : Turn κ → Machine κ → Prop
  | signal (m : Machine κ) : Routes text (m.receive (.goto text)) m
  | jump {u : Turn κ} {w : Bool} (ha : u.act = .work .next w)
    (hj : u.machine.active.pendingJump = some text) : Routes text u (u.machine.setJump none)
  | label {u : Turn κ} {l jump fallback : Option String} {w : Bool}
    (ha : u.act = .work (.dispatch (.goto ⟨l, .label text, jump⟩) fallback) w) :
    Routes text u (u.machine.setJump (jump.or fallback))
  | answer {u : Turn κ} {l jump fallback : Option String} {w : Bool} {r : κ} {ps : List Json}
    (ha : u.act = .work (.dispatch (.goto ⟨l, .resolver r ps, jump⟩) fallback) w) :
    Routes text u (u.machine.setJump (jump.or fallback))

end Turn

namespace Machine
variable {m : Machine κ} {text : String}

/-- What it comes to that a frame is told to go to a label, or to a text that is none. -/
inductive GoesTo (m : Machine κ) : Option String → Turn κ → Prop
  | blank (ends : (m.abort .emptyLabel).EndsWith
      (m.gathered ++ [.string Fault.emptyLabel.message])) : GoesTo m none (m.abort .emptyLabel)
  | primitive {l : String} {sig : Signal} (h : (l, sig) ∈ Label.primitives) :
    GoesTo m (some l) (m.receive sig)
  | entry {l : String} {i : Nat} {e : Entry κ} (hl : ∀ sig, (l, sig) ∉ Label.primitives)
    (hi : m.active.sequence.LastCarrying l i) (he : m.active.sequence.entries[i]? = some e) :
    GoesTo m (some l)
      ⟨m.modifyActive fun f => { f with pendingJump := none, stack := [], cursor := i + 1 }, [],
        .work (.dispatch e none) false⟩
  | unknown {l : String} (hl : ∀ sig, (l, sig) ∉ Label.primitives)
    (hfree : ∀ e ∈ m.active.sequence.entries, e.label ≠ some l)
    (ends : (m.abort (.unknownLabel l)).EndsWith
      (m.gathered ++ [.string (Fault.unknownLabel l).message])) :
    GoesTo m (some l) (m.abort (.unknownLabel l))

theorem step_goto_primitive (hf : m.active.finished = false) {l : String} {sig : Signal}
    (hc : Label.clean text = some l) (h : (l, sig) ∈ Label.primitives) :
    m.step (.goto text) = m.go sig.task := by
  rcases Label.primitive_cases h with ⟨rfl, rfl⟩ | ⟨rfl, rfl⟩ | ⟨rfl, rfl⟩
  all_goals simp [step, goto, hf, hc, Signal.task]

theorem ne_of_not_primitive {l : String} (h : ∀ sig, (l, sig) ∉ Label.primitives) :
    l ≠ "continue" ∧ l ≠ "break" ∧ l ≠ "end" := by
  refine ⟨?_, ?_, ?_⟩
  · rintro rfl
    exact h .proceed (by simp [Label.primitives])
  · rintro rfl
    exact h .leave (by simp [Label.primitives])
  · rintro rfl
    exact h .finish (by simp [Label.primitives])

section Lookup
variable {l : String} (hf : m.active.finished = false) (hc : Label.clean text = some l)
  (hl : ∀ sig, (l, sig) ∉ Label.primitives)
include hf hc hl

theorem step_goto_unknown (hget : m.active.sequence.labels.get? l = none) :
    m.step (.goto text) = m.raise (.unknownLabel l) := by
  simp [step, goto, hf, hc, ne_of_not_primitive hl, Sequence.labelIndex_of_clean hc, hget]

theorem step_goto_entry {i : Nat} {e : Entry κ} (hget : m.active.sequence.labels.get? l = some i)
    (he : m.active.sequence.entries[i]? = some e) :
    m.step (.goto text) = (m.modifyActive fun f =>
      { f with pendingJump := none, stack := [], cursor := i + 1 }).go (.dispatch e none) := by
  simp [step, goto, hf, hc, ne_of_not_primitive hl, Sequence.labelIndex_of_clean hc, hget, advance,
    he, modifyActive_modifyActive]

end Lookup

theorem turn_of_raise {t : Task κ} {f : Fault} (h : m.step t = m.raise f) :
    m.turn t false = m.abort f := by
  simp only [turn, h, raise, Bool.false_eq_true, if_false, List.nil_append]

theorem Live.abort_endsWith (h : m.Live) (hp : m.parked = none) (f : Fault) :
    (m.abort f).EndsWith (m.gathered ++ [.string f.message]) := by
  rw [abort_live h.unfinished, withParked_eq hp, ← m.gathered_foldFault]
  exact (live_foldFault h.unfinished f).endsWith hp _ true

theorem Live.goesTo (h : m.Live) (hp : m.parked = none) (hfiled : m.active.sequence.Filed)
    (text : String) : m.GoesTo (Label.clean text) (m.turn (.goto text) false) := by
  have hf := h.active_finished
  cases hc : Label.clean text with
  | none =>
    have hstep : m.step (.goto text) = m.raise .emptyLabel := by
      simp [Machine.step, Machine.goto, hf, hc]
    rw [turn_of_raise hstep]
    exact .blank (h.abort_endsWith hp _)
  | some l =>
    by_cases hprim : ∃ sig, (l, sig) ∈ Label.primitives
    · obtain ⟨sig, hsig⟩ := hprim
      rw [turn_of_go (step_goto_primitive hf hc hsig)]
      exact .primitive hsig
    · have hl : ∀ sig, (l, sig) ∉ Label.primitives := fun sig hs => hprim ⟨sig, hs⟩
      cases hget : m.active.sequence.labels.get? l with
      | none =>
        rw [turn_of_raise (step_goto_unknown hf hc hl hget)]
        exact .unknown hl (hfiled.get?_eq_none_iff.mp hget) (h.abort_endsWith hp _)
      | some i =>
        have hi := (hfiled l i).mp hget
        obtain ⟨e, he, -⟩ := hi.carries
        rw [turn_of_go (step_goto_entry hf hc hl hget he)]
        exact .entry hl hi he

theorem GoesTo.unique {l : Option String} {v w : Turn κ} (h : m.GoesTo l v) (h' : m.GoesTo l w) :
    v = w := by
  cases h with
  | blank => cases h' with | blank => rfl
  | @primitive l sig hl =>
    cases h' with
    | primitive hl' => rw [Label.primitive_unique hl hl']
    | entry hn => exact absurd hl (hn sig)
    | unknown hn => exact absurd hl (hn sig)
  | entry hn hi he =>
    cases h' with
    | primitive hl => exact absurd hl (hn _)
    | entry _ hi' he' =>
      obtain rfl := hi.unique hi'
      obtain rfl := Option.some.inj (he.symm.trans he')
      rfl
    | unknown _ hfree =>
      obtain ⟨r, hr, hl⟩ := hi.carries
      exact absurd hl (hfree r (List.mem_of_getElem? hr))
  | unknown hn hfree =>
    cases h' with
    | primitive hl => exact absurd hl (hn _)
    | entry _ hi =>
      obtain ⟨r, hr, hl⟩ := hi.carries
      exact absurd hl (hfree r (List.mem_of_getElem? hr))
    | unknown => rfl

end Machine

namespace Turn
variable {u : Turn κ} {x : Machine κ} {text : String}

theorem parked_path {m : Machine κ} {ns : List Notice} {t : Task κ} {w : Bool} {j : Option String}
    (hu : Underway ⟨m, ns, .work t w⟩) (hx : x = m.setJump j)
    (hstep : m.step t = (m.setJump j).park (.goto text)) :
    ∃ us, Path ⟨m, ns, .work t w⟩ us ⟨x, [], .work (.goto text) false⟩ ∧
      (∀ b ∈ us, b.act.isOperation = false) ∧ x.Live ∧ x.parked = none ∧
        x.active.sequence = m.active.sequence := by
  have hp : (m.setJump j).parked = none := (Machine.parked_setJump ..).trans hu.2.1
  have hn : Next ⟨m, ns, .work t w⟩
      ⟨{ m.setJump j with parked := some (.goto text) }, [], .settle⟩ :=
    .of_turn rfl (Machine.turn_of_step hstep rfl)
  subst hx
  refine ⟨_, .cons hn (.cons (.of_parked hp _ _) (.refl _)), ?_, hu.1.setJump j, hp,
    by rw [Machine.active_setJump]⟩
  simp [Act.isOperation]

/-- Resolvers apart no user code is called before the frame goes where the text says. -/
theorem Routes.path (h : Routes text u x) (hu : u.Underway) :
    ∃ us, Path u us ⟨x, [], .work (.goto text) false⟩ ∧ (∀ b ∈ us, b.act.isOperation = false) ∧
      x.Live ∧ x.parked = none ∧ x.active.sequence = u.machine.active.sequence := by
  obtain ⟨m, ns, a⟩ := u
  cases h with
  | signal m => exact ⟨[], .refl _, List.forall_mem_nil _, hu.1, hu.2.1, rfl⟩
  | @jump _ w ha hj =>
    obtain rfl : a = .work .next w := ha
    have hstep : m.step .next = (m.setJump none).park (.goto text) := by
      simp only [Machine.step, Machine.next, hu.1.active_finished, Bool.false_eq_true, if_false,
        show m.active.pendingJump = some text from hj]
    exact parked_path hu rfl hstep
  | @label _ l jump fallback w ha =>
    obtain rfl : a = .work (.dispatch (.goto ⟨l, .label text, jump⟩) fallback) w := ha
    exact parked_path hu rfl rfl
  | @answer _ l jump fallback w r ps ha =>
    obtain rfl : a = .work (.dispatch (.goto ⟨l, .resolver r ps, jump⟩) fallback) w := ha
    have hp : (m.setJump (jump.or fallback)).parked = none :=
      (Machine.parked_setJump ..).trans hu.2.1
    refine ⟨_, .cons .work (.cons (.resolved text) (.cons (.of_parked hp _ _) (.refl _))), ?_,
      hu.1.setJump _, hp, by rw [Machine.active_setJump]⟩
    exact List.forall_mem_cons.mpr ⟨rfl, List.forall_mem_cons.mpr
      ⟨rfl, List.forall_mem_singleton.mpr rfl⟩⟩

theorem Occurs.filed (h : u.Occurs) (hb : u.machine.root.sequence.Built) :
    u.machine.active.sequence.Filed :=
  hb.filed _ (Machine.Stacked.encloses h.bounded.machine)

/-- All routes to a label agree. Whichever way a text comes to the active frame, what happens in the
state in which the frame goes there is settled by the cleaned text. -/
theorem routes_agree (h : u.Occurs) (hf : u.machine.isFinished = false)
    (hb : u.machine.root.sequence.Built) (hr : Routes text u x) :
    (∃ us, Path u us ⟨x, [], .work (.goto text) false⟩ ∧ ∀ b ∈ us, b.act.isOperation = false) ∧
    ∃ v, Next ⟨x, [], .work (.goto text) false⟩ v ∧
      (∀ w, x.GoesTo (Label.clean text) w ↔ w = v) ∧
      ∀ other, Label.clean other = Label.clean text →
        Next ⟨x, [], .work (.goto other) false⟩ v := by
  have hu : u.Underway := by
    cases hr with
    | signal m => exact h.underway_of_work hf rfl
    | jump ha | label ha | answer ha => exact h.underway_of_work hf ha
  obtain ⟨us, path, hus, hx, hp, hseq⟩ := hr.path hu
  have hfiled : x.active.sequence.Filed := hseq ▸ h.filed hb
  have goes := hx.goesTo hp hfiled
  refine ⟨⟨us, path, hus⟩, _, .work, fun w => ⟨fun hw => hw.unique (goes text), ?_⟩,
    fun other ho => ?_⟩
  · rintro rfl
    exact goes text
  · have hother := goes other
    rw [ho] at hother
    exact .of_turn rfl (hother.unique (goes text))

end Turn

def outbound : Sequence Unit := (Sequence.withRegistry {}).push (.goto ⟨none, .label "top", none⟩)

/-- Two operations under one label, the first of which jumps, and then the sequence that goes
out. -/
def crossing : Sequence Unit :=
  (((Sequence.withRegistry {}).push
    (.method { label := some "top", operation := (), jump := some "break" })).push
      (.method { label := some "top", operation := () })).push (.sequence ⟨none, outbound, none⟩)

theorem built_outbound : outbound.Built := by
  have hadd : ((Sequence.withRegistry {}).add
      (.object { goto := some (.label " Top ") })).1 = outbound := by
    simp [Sequence.add, Declaration.normalize, Clauses.normalize]
    rfl
  rw [← hadd]
  refine .add (.empty {}) _ fun t ht => ?_
  cases ht with
  | method h | condition h | whenTrue h | whenFalse h | control h | block h | onSuccess h
  | onError h | error h | sequence h => exact absurd h.symm (Option.some_ne_none _)

theorem not_holds_call {label jump : Option String} {t : Sequence Unit} :
    ¬ (Declaration.object { label, method := some (.operation ()), jump }).Holds t := by
  intro ht
  cases ht with
  | method h hd =>
    obtain rfl := Option.some.inj h
    exact absurd hd Declaration.not_holds_operation
  | condition h | whenTrue h | whenFalse h | control h | block h | onSuccess h | onError h
  | error h | sequence h => exact absurd h.symm (Option.some_ne_none _)

theorem built_crossing : crossing.Built := by
  have hadd :
      ((((Sequence.withRegistry {}).add (.object
          { label := some " TOP", method := some (.operation ()), jump := some "Break" })).1.add
        (.object { label := some "top ", method := some (.operation ()) })).1.add
        (.sequence outbound)).1 = crossing := by
    simp only [Sequence.add, Declaration.normalize, Clauses.normalize, MethodCall.ofClauses,
      MethodCall.ofDeclaration]
    rfl
  rw [← hadd]
  refine .add (.add (.add (.empty {}) _ fun t ht => ?_) _ fun t ht => ?_) _ fun t ht => ?_
  · exact absurd ht not_holds_call
  · exact absurd ht not_holds_call
  · cases ht
    exact built_outbound

def crossingAtWork : Machine Unit :=
  { root := { sequence := crossing, cursor := 1, pendingJump := some "break" } }

theorem reachable_crossing : crossingAtWork.Reachable := by
  have path : Turn.Path ((Machine.start crossing).receive .next) _
      ⟨crossingAtWork, [], .call { label := some "top", operation := (), jump := some "break" }⟩ :=
    .cons .work <| .cons .work <| .refl _
  exact ⟨_, ((Machine.reachable_start crossing).receive .next).path path, trivial, rfl⟩

namespace Turn

/-- The first operation goes to the label, which finds the second, or it has the run go on, which
takes its jump. From the nested sequence the label is out of reach. -/
theorem crossing_routes_agree :
    crossingAtWork.Reachable ∧ crossing.Built ∧
    crossingAtWork.GoesTo (Label.clean " TOP ")
      ⟨crossingAtWork.modifyActive fun f =>
          { f with pendingJump := none, stack := [], cursor := 2 }, [],
        .work (.dispatch (.method { label := some "top", operation := () }) none) false⟩ ∧
    (crossingAtWork.setJump none).GoesTo (Label.clean "break")
      ((crossingAtWork.setJump none).receive .leave) ∧
    ∃ us, ∃ u : Turn Unit, ∃ x : Machine Unit, Path (crossingAtWork.receive (.goto " TOP ")) us
        ⟨crossingAtWork.modifyActive fun f =>
            { f with pendingJump := none, stack := [], cursor := 2 }, [],
          .call { label := some "top", operation := () }⟩ ∧
      u.Occurs ∧ Routes "top" u x ∧ x.children.length = 1 ∧
      x.GoesTo (Label.clean "top") (x.abort (.unknownLabel "top")) := by
  have going := reachable_crossing.receive (.goto " TOP ")
  obtain ⟨-, v, hv, hgoes, -⟩ := routes_agree going rfl built_crossing (.signal crossingAtWork)
  obtain rfl := hv.eq_turn rfl
  obtain ⟨-, w, hw, hjumps, -⟩ := routes_agree (reachable_crossing.receive .next) rfl built_crossing
    (.jump rfl rfl)
  obtain rfl := hw.eq_turn rfl
  have second : Path (crossingAtWork.receive (.goto " TOP ")) _ ⟨_, _, .call _⟩ :=
    .cons .work <| .cons .work <| .refl _
  have nested := (((((going.path second).receive trivial .next).next .work).next .work).next .work)
  obtain ⟨-, z, hz, hout, -⟩ := routes_agree nested rfl built_crossing (.label rfl)
  obtain rfl := hz.eq_turn rfl
  exact ⟨reachable_crossing, built_crossing, (hgoes _).mpr rfl, (hjumps _).mpr rfl, _, _, _, second,
    nested, .label rfl, rfl, (hout _).mpr rfl⟩

end Turn
end Sequencer
