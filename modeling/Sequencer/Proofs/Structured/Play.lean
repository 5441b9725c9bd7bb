import Sequencer.Proofs.Engine.Runs
import Sequencer.Proofs.Structured.Performance

/-! Playing a trace. A machine that performs a trace does so in its context, under whatever else is
going on, if the operations that it calls answer as the trace says. -/

namespace Sequencer
variable {κ σ ε : Type}

def MethodCall.invocation (c : MethodCall κ) : Invocation κ := .operation c.operation c.params

namespace Engine

def calls (c : ContextId) (es : List (Event κ ε)) : List (Invocation κ) :=
  es.filterMap fun
    | .called d i _ => if d = c then some i else none
    | _ => none

def outcomes (c : ContextId) (es : List (Event κ ε)) : List Outcome :=
  es.filterMap fun
    | .finished d o => if d = c then some o else none
    | _ => none

/-- Operations answer by a list of replies: if the next call on behalf of the context is that of the
list, the operation posts the signal of the list, once, and returns. It finds the context driven and
the state of the host as the operation before it left it. -/
def Plays (host : Host κ σ ε) (c : ContextId) : Config κ σ ε → List (Reply κ) → Prop
  | _, [] => True
  | cfg, (m, s) :: rs => ∀ a w r es es', Steps host cfg es a → calls c es = [] →
    step host a = .more ⟨w, .code (host m.invocation c) :: .driver c .calling :: r⟩ es' →
    calls c es' = [m.invocation] → (w.context c).driving = true → w.host = cfg.world.host →
    ∃ w' answer deferred es'',
      Steps host ⟨w, .code (host m.invocation c) :: .driver c .calling :: r⟩ es''
        ⟨w', .code (.done answer) :: .driver c .calling :: r⟩ ∧
      calls c es'' = [] ∧
      w'.context c = { w.context c with queue := (w.context c).queue.push s deferred } ∧
      Plays host c ⟨w', .code (.done answer) :: .driver c .calling :: r⟩ rs

structure Busy (c : ContextId) (m : Machine κ) (w : World κ σ) : Prop where
  machine : (w.context c).machine = some m
  driving : (w.context c).driving = true
  queue : (w.context c).queue = {}

section
variable {host : Host κ σ ε} {c : ContextId} {w : World κ σ} {m m' : Machine κ} {t t' : Task κ}
  {ns : List Notice} {r : List (Activation κ σ ε)}

@[simp] theorem calls_append (c : ContextId) (es es' : List (Event κ ε)) :
    calls c (es ++ es') = calls c es ++ calls c es' := List.filterMap_append

@[simp] theorem outcomes_append (c : ContextId) (es es' : List (Event κ ε)) :
    outcomes c (es ++ es') = outcomes c es ++ outcomes c es' := List.filterMap_append

@[simp] theorem calls_reports (c d : ContextId) (ns : List Notice) :
    calls c (reports d ns : List (Event κ ε)) = [] := by
  induction ns with
  | nil => rfl
  | cons n ns ih => cases n <;> exact ih

@[simp] theorem outcomes_reports (c d : ContextId) (ns : List Notice) :
    outcomes c (reports d ns : List (Event κ ε)) = [] := by
  induction ns with
  | nil => rfl
  | cons n ns ih => cases n <;> exact ih

theorem Steps.trans {a b d : Config κ σ ε} {es es' : List (Event κ ε)} (h : Steps host a es b)
    (h' : Steps host b es' d) : Steps host a (es ++ es') d := by
  induction h with
  | refl => exact h'
  | head hs _ ih =>
    rw [List.append_assoc]
    exact .head hs (ih h')

theorem Plays.of_steps {a b : Config κ σ ε} {es : List (Event κ ε)} {rs : List (Reply κ)}
    (h : Plays host c a rs) (hs : Steps host a es b) (hc : calls c es = [])
    (hh : b.world.host = a.world.host) : Plays host c b rs := by
  cases rs with
  | nil => trivial
  | cons q rs =>
    obtain ⟨o, s⟩ := q
    intro d w r es' es'' hs' hc' h' hi hd hw
    exact h d w r _ es'' (hs.trans hs') (by rw [calls_append, hc, hc']; rfl) h' hi hd (hw.trans hh)

theorem step_moving (hb : Busy c m w) (t : Task κ) (r : List (Activation κ σ ε)) :
    step host ⟨w, .driver c (.moving t false) :: r⟩ = follow host w c (m.turn t false) r := by
  simp only [step, drive, hb.machine]

def moved (w : World κ σ) (c : ContextId) (m : Machine κ) (ns : List Notice) : World κ σ :=
  w.setContext c
    { w.context c with machine := some m, status := applyNotices (w.context c).status ns }

theorem Busy.moved (hb : Busy c m w) (m' : Machine κ) (ns : List Notice) :
    Busy c m' (moved w c m' ns) := by
  constructor <;> rw [Engine.moved, World.context_setContext_self]
  · exact hb.driving
  · exact hb.queue

theorem step_go (host : Host κ σ ε) (hb : Busy c m w) (h : m.step t = ⟨m', ns, .task t'⟩)
    (r : List (Activation κ σ ε)) :
    step host ⟨w, .driver c (.moving t false) :: r⟩ =
      .more ⟨moved w c m' ns, .driver c (.moving t' false) :: r⟩ (reports c ns) := by
  have ht : m.turn t false = ⟨m', ns, .work t' false⟩ := by simp only [Machine.turn, h]
  rw [step_moving hb, ht]
  rfl

theorem steps_unpark (host : Host κ σ ε) (hb : Busy c m w) (h : m.step t = ⟨m', ns, .settle⟩)
    {p : Parked} (hp : m'.parked = some p) (r : List (Activation κ σ ε)) :
    ∃ w' es, Busy c { m' with parked := none } w' ∧ w'.host = w.host ∧
      Steps host ⟨w, .driver c (.moving t false) :: r⟩ es
        ⟨w', .driver c (.moving p.task false) :: r⟩ ∧ calls c es = [] := by
  have ht : m.turn t false = ⟨m', ns, .settle⟩ := by simp only [Machine.turn, h]
  have h₁ : step host ⟨w, .driver c (.moving t false) :: r⟩ =
      .more ⟨moved w c m' ns, .driver c .settle :: r⟩ (reports c ns) := by
    rw [step_moving hb, ht]
    rfl
  have hb' := hb.moved m' ns
  have h₂ : step host ⟨moved w c m' ns, .driver c .settle :: r⟩ =
      .more ⟨(moved w c m' ns).setContext c
        { (moved w c m' ns).context c with machine := some m'.unpark },
        .driver c (.moving p.task false) :: r⟩ [] := by
    simp [step, drive, hb'.machine, hp, goOn]
  refine ⟨_, _, ?_, ?_, .head h₁ (.head h₂ (.refl _)), by simp⟩
  · constructor <;> rw [World.context_setContext_self]
    · rfl
    · exact hb'.driving
    · exact hb'.queue
  · rfl

theorem step_call (host : Host κ σ ε) (hb : Busy c m w) {o : MethodCall κ}
    (h : m.step t = ⟨m', ns, .call o⟩) (r : List (Activation κ σ ε)) :
    step host ⟨w, .driver c (.moving t false) :: r⟩ =
      .more ⟨moved w c m' ns, .code (host o.invocation c) :: .driver c .calling :: r⟩
        (reports c ns ++
          [.called c o.invocation ((moved w c m' ns).context c).status.active]) := by
  have ht : m.turn t false = ⟨m', ns, .call o⟩ := by simp only [Machine.turn, h]
  rw [step_moving hb, ht]
  rfl

theorem calls_called (c : ContextId) (i : Invocation κ) (a : Option ActiveSequence) :
    calls c [(.called c i a : Event κ ε)] = [i] := by
  simp [calls]

theorem steps_answer (host : Host κ σ ε) {w' : World κ σ} (hb : Busy c m w)
    (hp : m.parked = none) {s : Signal} {deferred : Bool} (answer : String)
    (hw : w'.context c = { w.context c with queue := (w.context c).queue.push s deferred })
    (r : List (Activation κ σ ε)) :
    ∃ w'' es, Busy c m w'' ∧ w''.host = w'.host ∧
      Steps host ⟨w', .code (.done answer) :: .driver c .calling :: r⟩ es
        ⟨w'', .driver c (.moving s.task false) :: r⟩ ∧ calls c es = [] := by
  have hm : (w'.context c).machine = some m := by rw [hw, hb.machine]
  have hq : (w'.context c).queue.pop? = some (s, {}) := by rw [hw, hb.queue, SignalQueue.pop?_push]
  have h₁ : step host ⟨w', .code (.done answer) :: .driver c .calling :: r⟩ =
      .more ⟨w', .driver c .settle :: r⟩ [] := rfl
  have h₂ : step host ⟨w', .driver c .settle :: r⟩ = .more ⟨w', .driver c .poll :: r⟩ [] := by
    simp [step, drive, hm, hp, goOn]
  have h₃ : step host ⟨w', .driver c .poll :: r⟩ =
      .more ⟨w'.setContext c { w'.context c with queue := {} },
        .driver c (.moving s.task false) :: r⟩ [.taken c s true] := by
    simp only [step, drive, hq, hm]
    rfl
  refine ⟨_, _, ?_, ?_, .head h₁ (.head h₂ (.head h₃ (.refl _))), by simp [calls]⟩
  · constructor <;> rw [World.context_setContext_self]
    · exact hm
    · rw [hw]
      exact hb.driving
  · rfl

/-- A machine performs in its context what its operations play. -/
theorem steps_of_performs {n : Machine κ} {u : Task κ} {rs : List (Reply κ)}
    (h : Performs m t rs n u) (hb : Busy c m w)
    (hplays : Plays host c ⟨w, .driver c (.moving t false) :: r⟩ rs) :
    ∃ w' es, Busy c n w' ∧ Steps host ⟨w, .driver c (.moving t false) :: r⟩ es
      ⟨w', .driver c (.moving u false) :: r⟩ ∧ calls c es = rs.map (·.1.invocation) := by
  induction h generalizing w with
  | refl => exact ⟨w, [], hb, .refl _, rfl⟩
  | @go m m' n t t' u ns rs hs _ ih =>
    have h₁ : Steps host ⟨w, .driver c (.moving t false) :: r⟩ _ _ :=
      .head (step_go host hb hs r) (.refl _)
    have hc : calls c (reports c ns ++ [] : List (Event κ ε)) = [] := by simp
    obtain ⟨w', es, hb', h₂, hes⟩ := ih (hb.moved m' ns) (hplays.of_steps h₁ hc rfl)
    exact ⟨w', _, hb', h₁.trans h₂, by rw [calls_append, hc, hes]; rfl⟩
  | @unpark m m' n t u ns p rs hs hp _ ih =>
    obtain ⟨w₁, es₁, hb₁, hh₁, h₁, hc⟩ := steps_unpark host hb hs hp r
    obtain ⟨w', es, hb', h₂, hes⟩ := ih hb₁ (hplays.of_steps h₁ hc hh₁)
    exact ⟨w', _, hb', h₁.trans h₂, by rw [calls_append, hc, hes]; rfl⟩
  | @call m m' n t u ns o s rs hs hp _ ih =>
    -- The operation is called, posts its answer and returns; then the answer is taken up.
    have h₁ := step_call host hb hs r
    have hc₁ : calls c (reports c ns ++ [.called c o.invocation
        ((moved w c m' ns).context c).status.active] : List (Event κ ε)) = [o.invocation] := by
      rw [calls_append, calls_reports, calls_called]
      rfl
    obtain ⟨w₂, answer, deferred, es₂, h₂, hc₂, hw₂, hplays₂⟩ :=
      hplays _ _ _ [] _ (.refl _) rfl h₁ hc₁ (hb.moved m' ns).driving rfl
    obtain ⟨w₃, es₃, hb₃, hh₃, h₃, hc₃⟩ :=
      steps_answer host (hb.moved m' ns) hp answer hw₂ r
    obtain ⟨w', es, hb', h₄, hes⟩ := ih hb₃ (hplays₂.of_steps h₃ hc₃ hh₃)
    refine ⟨w', _, hb', (Steps.head h₁ h₂).trans (h₃.trans h₄), ?_⟩
    rw [calls_append, calls_append, hc₁, hc₂, calls_append, hc₃, hes]
    rfl

end
end Engine
end Sequencer
