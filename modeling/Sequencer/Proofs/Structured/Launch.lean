import Sequencer.Proofs.Structured.Ending

/-! Launching structured programs. If operations answer as a trace of the program says, the run
calls exactly the operations of the trace, in its order, and then ends in success. -/

namespace Sequencer.Engine
variable {κ σ ε : Type} {host : Host κ σ ε} {c : ContextId} {w : World κ σ} {m : Machine κ}
  {s : Sequence κ} {r rest : List (Activation κ σ ε)} {k : Code κ σ ε}

def afterSuccess (host : Host κ σ ε) (c : ContextId) (s : Sequence κ)
    (r : List (Activation κ σ ε)) : List (Activation κ σ ε) :=
  match s.onSuccess with
  | none => r
  | some h => .code (host (.success h) c) :: .driver c .calling :: r

def spent (s : Sequence κ) : Machine κ := { root := { sequence := s, cursor := s.entries.length } }

theorem spent_eq (s : Sequence κ) :
    (Machine.start s).modifyActive (fun f => { f with cursor := f.cursor + s.entries.length }) =
      spent s := by
  simp only [Machine.start, Machine.modifyActive, spent, Nat.zero_add]

theorem ready_start (s : Sequence κ) : (Machine.start s).Ready := ⟨rfl, rfl, rfl⟩

theorem ready_spent (s : Sequence κ) : (spent s).Ready := ⟨rfl, rfl, rfl⟩

theorem performs_program {rs : List (Reply κ)} (h : Trace (.list s.entries) rs) :
    Performs (Machine.start s) .next rs (spent s) .finish := by
  have hp := h.performed (Machine.start s) (ready_start s) [] [] (List.append_nil _).symm rfl
  rw [spent_eq] at hp
  have hnext := Machine.step_next_none (ready_spent s) (List.getElem?_eq_none (Nat.le_refl _))
  have hcomplete : (spent s).step .complete = ⟨spent s, [], .task .finish⟩ := rfl
  have h := hp.trans (.go hnext (.go hcomplete (.refl _ _)))
  rwa [List.append_nil] at h

def succeeded (s : Sequence κ) : Machine κ :=
  { root := { sequence := s, cursor := s.entries.length, finished := true } }

theorem turn_finish (s : Sequence κ) :
    (spent s).turn .finish false = ⟨succeeded s, [], .finished .success s.onSuccess⟩ := rfl

structure Succeeded (c : ContextId) (s : Sequence κ) (w : World κ σ) : Prop where
  machine : (w.context c).machine = some (succeeded s)
  outcome : (w.context c).status.outcome = some .success
  queue : (w.context c).queue = {}

theorem steps_finish (host : Host κ σ ε) (hb : Busy c (spent s) w)
    (r : List (Activation κ σ ε)) :
    ∃ w' es, Steps host ⟨w, .driver c (.moving .finish false) :: r⟩ es
        ⟨w', afterSuccess host c s r⟩ ∧
      calls c es = (s.onSuccess.map .success).toList ∧ outcomes c es = [.success] ∧
      Succeeded c s w' := by
  obtain ⟨w', es, h, hc, ho, hw⟩ := steps_end host hb (turn_finish s) rfl r
  exact ⟨w', es, h, hc, ho, hw.machine, hw.outcome, hw.queue⟩

def launched (w : World κ σ) (c : ContextId) (s : Sequence κ) : World κ σ :=
  { w with started := w.started + 1 }.setContext c
    { fresh (w.context c) s (w.started + 1) with
      queue := ({} : SignalQueue).push .next false
      driving := true }

theorem steps_launch (host : Host κ σ ε) (ha : accepts (w.context c) = true) (s : Sequence κ)
    (k : Code κ σ ε) (rest : List (Activation κ σ ε)) :
    ∃ w' es, Busy c (Machine.start s) w' ∧ w'.host = w.host ∧
      Steps host ⟨w, .code (.launch c s k) :: rest⟩ es
        ⟨w', .driver c (.moving .next false) :: .code k :: rest⟩ ∧ calls c es = [] := by
  have hlaunch : step host ⟨w, .code (.launch c s k) :: rest⟩ =
      .more ⟨launched w c s, .driver c .poll :: .code k :: rest⟩
        [.launched c (w.started + 1), .posted c .next false] := by
    simp only [step, request, launch, ha, if_true]
    rfl
  have hm : ((launched w c s).context c).machine = some (Machine.start s) := by
    rw [launched, World.context_setContext_self]
    rfl
  have hq : ((launched w c s).context c).queue.pop? = some (.next, {}) := by
    rw [launched, World.context_setContext_self]
    rfl
  have hpoll : step host ⟨launched w c s, .driver c .poll :: .code k :: rest⟩ =
      .more ⟨(launched w c s).setContext c { (launched w c s).context c with queue := {} },
        .driver c (.moving .next false) :: .code k :: rest⟩ [.taken c .next true] := by
    simp only [step, drive, hq, hm]
    rfl
  refine ⟨_, _, ?_, ?_, .head hlaunch (.head hpoll (.refl _)), by simp [calls]⟩
  · constructor <;> rw [World.context_setContext_self]
    · exact hm
    · rw [launched, World.context_setContext_self]
  · rfl

/-- For whatever answers, a structured program has one trace; and if operations answer as a trace of
it says, launching the program calls exactly the operations of the trace, in its order, after which
the run ends in success and nothing but its handler is called any more. -/
theorem launch_structured (host : Host κ σ ε) {ask : List (Reply κ) → Bool}
    (hs : Structured ask (.list s.entries)) (ha : accepts (w.context c) = true) (k : Code κ σ ε)
    (rest : List (Activation κ σ ε)) :
    (∃! rs, Trace (.list s.entries) rs ∧ Agrees ask [] rs) ∧
    ∀ rs, Trace (.list s.entries) rs → Plays host c ⟨w, .code (.launch c s k) :: rest⟩ rs →
      ∃ w' run ending, Steps host ⟨w, .code (.launch c s k) :: rest⟩ (run ++ ending)
          ⟨w', afterSuccess host c s (.code k :: rest)⟩ ∧
        calls c run = rs.map (·.1.invocation) ∧
        calls c ending = (s.onSuccess.map .success).toList ∧ outcomes c ending = [.success] ∧
        Succeeded c s w' := by
  refine ⟨hs.existsUnique_trace, fun rs htrace hplays => ?_⟩
  obtain ⟨w₁, es₁, hb₁, hh₁, h₁, hc₁⟩ := steps_launch host ha s k rest
  obtain ⟨w₂, es₂, hb₂, h₂, hc₂⟩ :=
    steps_of_performs (performs_program htrace) hb₁ (hplays.of_steps h₁ hc₁ hh₁)
  obtain ⟨w₃, es₃, h₃, hc₃, ho₃, hw₃⟩ := steps_finish host hb₂ (.code k :: rest)
  refine ⟨w₃, es₁ ++ es₂, es₃, (h₁.trans h₂).trans h₃, ?_, hc₃, ho₃, hw₃⟩
  rw [calls_append, hc₁, hc₂]
  rfl

/-- Operations read their answers off a list. -/
def reader : Host κ (List Signal) ε
  | .operation _ _, c => .load fun
    | [] => .done ""
    | s :: q => .store q (.post c s false (.done ""))
  | _, _ => .done ""

theorem plays_reader {cfg : Config κ (List Signal) ε} {rs : List (Reply κ)}
    (h : cfg.world.host = rs.map Prod.snd) : Plays reader c cfg rs := by
  induction rs generalizing cfg with
  | nil => trivial
  | cons q rs ih =>
    obtain ⟨o, s⟩ := q
    intro a w r es es' _ _ _ _ hd hw
    rw [h, List.map_cons] at hw
    have hload : step reader ⟨w, .code (reader o.invocation c) :: .driver c .calling :: r⟩ =
        .more ⟨w, .code (.store (rs.map Prod.snd) (.post c s false (.done ""))) ::
          .driver c .calling :: r⟩ [] := by
      simp [step, request, reader, MethodCall.invocation, hw, goOn]
    have hpost : step reader ⟨{ w with host := rs.map Prod.snd },
          .code (.post c s false (.done "")) :: .driver c .calling :: r⟩ =
        .more ⟨{ w with host := rs.map Prod.snd }.setContext c
            { w.context c with queue := (w.context c).queue.push s false, driving := true },
          .code (.done "") :: .driver c .calling :: r⟩ [.posted c s false] := by
      have hc : (({ w with host := rs.map Prod.snd } : World κ (List Signal)).context c) =
        w.context c := rfl
      simp [step, request, post, hc, hd, goOn]
    refine ⟨_, "", false, _, .head hload (.head rfl (.head hpost (.refl _))), by simp [calls], ?_,
      ih rfl⟩
    rw [World.context_setContext_self, ← hd]

def chores : Loop Nat :=
  { label := none
    control := .method { operation := 2 }
    block := { entries := [.sequence ⟨none, { entries := [.method { operation := 3 }] }, none⟩,
      .method { operation := 4 }] }
    onSuccess := some (.method { operation := 5 })
    onError := none
    jump := none }

def errand : Sequence Nat :=
  { entries := [.conditional ⟨none, { operation := 0 }, some (.method { operation := 1 }), none⟩,
      .loop chores] }

/-- Yes to the condition, and once to the control of the loop. -/
def askErrand (h : List (Reply Nat)) : Bool := decide (h.length < 3)

theorem round_askErrand {c last : MethodCall Nat} {es : List (Entry Nat)}
    {h h' : List (Reply Nat)} (hr : Round askErrand c last es h h') :
    h.length < 3 ∧ h.length + 2 ≤ h'.length := by
  obtain ⟨t, -, ha, rfl⟩ := hr
  refine ⟨of_decide_eq_true (ha.1 rfl), ?_⟩
  simp

theorem block_chores : chores.block.entries =
    [.sequence ⟨none, { entries := [.method { operation := 3 }] }, none⟩] ++
      [.method { operation := 4 }] := rfl

theorem structured_errand : Structured askErrand (.list errand.entries) := by
  refine .cons (.conditional (.taken (.method rfl)) .missing) (.cons ?_ .nil)
  refine .loop rfl rfl block_chores rfl (.cons (.sequence rfl (.cons (.method rfl) .nil)) .nil)
    (.taken (.method rfl)) ?_
  rintro ⟨h, hr⟩
  have h₁ : 2 ≤ (h 1).length := (Nat.le_add_left ..).trans (round_askErrand (hr 0)).2
  have h₂ : 2 + 2 ≤ (h 2).length := (Nat.add_le_add_right h₁ 2).trans (round_askErrand (hr 1)).2
  exact absurd (round_askErrand (hr 2)).1 (by omega)

def errandTrace : List (Reply Nat) :=
  [({ operation := 0 }, .yes), ({ operation := 1 }, .next), ({ operation := 2 }, .yes),
    ({ operation := 3 }, .next), ({ operation := 4 }, .proceed), ({ operation := 2 }, .no),
    ({ operation := 5 }, .next)]

theorem trace_errand : Trace (.list errand.entries) errandTrace := by
  have hrounds : Trace (.rounds chores 1) _ :=
    .round rfl block_chores rfl (.cons (.sequence rfl (.cons (.method rfl) .nil)) .nil) (.stop rfl)
  have hloop : Trace (.entry (.loop chores)) _ := .looped rfl hrounds (.taken (.method rfl))
  have hbranch : Trace (.branch (some (.method { operation := 1 }))) _ := .taken (.method rfl)
  have hif : Trace (.entry (.conditional
      ⟨none, { operation := 0 }, some (.method { operation := 1 }), none⟩)) _ := .yes hbranch
  exact .cons hif (.cons hloop .nil)

theorem launch_structured_errand :
    ∃ w' run ending, Steps (reader : Host Nat (List Signal) Unit)
        ⟨{ host := errandTrace.map Prod.snd }, [.code (.launch 0 errand (.done ""))]⟩
        (run ++ ending) ⟨w', [.code (.done "")]⟩ ∧
      calls 0 run = [0, 1, 2, 3, 4, 2, 5].map (.operation · []) ∧
      calls 0 ending = [] ∧ outcomes 0 ending = [.success] ∧ Succeeded 0 errand w' :=
  (launch_structured reader structured_errand rfl (.done "") []).2 errandTrace trace_errand
    (plays_reader rfl)

end Sequencer.Engine
