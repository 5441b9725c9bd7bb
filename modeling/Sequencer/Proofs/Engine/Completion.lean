import Sequencer.Proofs.Engine.Course
import Sequencer.Proofs.Machine.Endings

/-! The end of a run. It is recorded when the root becomes finished, together with the call of the
one handler that is told; from then on, until another run is launched, signals come to nothing. -/

namespace Sequencer
variable {κ σ ε : Type}

namespace Happening

def Closes : Happening κ → Prop
  | .finished _ | .called (.success _) _ | .called (.failure _ _) _ => True
  | _ => False

def OfRun : Happening κ → Prop
  | .called _ _ | .finished _ => True
  | _ => False

theorem Closes.ofRun {h : Happening κ} (hc : h.Closes) : h.OfRun := by
  cases h with
  | called | finished => trivial
  | _ => exact absurd hc not_false

end Happening

/-- The end of a run of the sequence as its context gets to see it. -/
def Sequence.ending (s : Sequence κ) (o : Outcome) : List (Happening κ) :=
  .finished o :: match o with
    | .success => (s.onSuccess.map fun h => .called (.success h) none).toList
    | .failure es => (s.onError.map fun h => .called (.failure h es) none).toList

def Context.rootFinished (x : Context κ) : Bool := x.machine.any (·.isFinished)

namespace Site
open Engine

/-- The run of a sequence goes on, and nothing has told of its end. -/
structure Running (x : Site κ) (s : Sequence κ) (run : Nat) (hs : List (Happening κ)) : Prop where
  machine : ∃ m, x.context.machine = some m ∧ m.root.sequence = s ∧ m.isFinished = false
  run : x.context.status.run = some run
  outcome : x.context.status.outcome = none
  quiet : ∀ h ∈ hs, ¬ h.Closes

/-- The end is told once; nothing tells of it before, and nothing is heard of the run afterwards. -/
structure Completed (x : Site κ) (s : Sequence κ) (run : Nat) (o : Outcome)
    (hs : List (Happening κ)) : Prop where
  machine : ∃ m, x.context.machine = some m ∧ m.root.sequence = s ∧ m.isFinished = true ∧
    o = .ofErrors m.root.errors
  status : x.context.status = ⟨some run, none, some o⟩
  told : ∃ before after, hs = before ++ s.ending o ++ after ∧ (∀ h ∈ before, ¬ h.Closes) ∧
    ∀ h ∈ after, ¬ h.OfRun

section
variable {x : Site κ} {y : Context κ} {m : Machine κ} {t : Task κ} {windingUp : Bool}
  {s : Sequence κ} {run : Nat} {o : Outcome} {hs hs' : List (Happening κ)} {i : Impulse κ}

theorem Running.rootFinished (h : x.Running s run hs) : x.context.rootFinished = false := by
  obtain ⟨m, hm, -, hf⟩ := h.machine
  rw [Context.rootFinished, hm]
  exact hf

theorem Completed.rootFinished (h : x.Completed s run o hs) : x.context.rootFinished = true := by
  obtain ⟨m, hm, -, hf, -⟩ := h.machine
  rw [Context.rootFinished, hm]
  exact hf

theorem happening?_not_ofRun {ns : List Notice} {h : Happening κ}
    (hh : h ∈ ns.filterMap Notice.happening?) : ¬ h.OfRun := by
  obtain ⟨d, rfl⟩ := Notice.exists_report hh
  exact not_false

theorem follow_of_ne_finished {u : Turn κ} (ha : ∀ o handler, u.act ≠ .finished o handler) :
    (follow y u).1.context =
        { y with machine := some u.machine, status := applyNotices y.status u.notices } ∧
      ∀ h ∈ (follow y u).2, ¬ h.Closes := by
  have hn : ∀ h ∈ u.notices.filterMap Notice.happening?, ¬ (h : Happening κ).Closes :=
    fun h hh hc => happening?_not_ofRun hh hc.ofRun
  unfold follow
  cases hact : u.act with
  | work | settle => exact ⟨rfl, hn⟩
  | call | resolve =>
    refine ⟨rfl, fun h hh => ?_⟩
    rcases List.mem_append.mp hh with hh | hh
    · exact hn h hh
    · obtain rfl := List.mem_singleton.mp hh
      exact not_false
  | finished o handler => exact absurd hact (ha o handler)

theorem follow_finished {u : Turn κ} (ha : u.act = .finished o (s.handler o)) :
    (follow y u).1.context = { y with
        machine := some u.machine
        status := ⟨y.status.run, none, some o⟩ } ∧
      (follow y u).2 = u.notices.filterMap Notice.happening? ++ s.ending o := by
  simp only [follow, ha, Sequence.ending, Outcome.invocation]
  cases o with
  | success => cases h : s.onSuccess <;> simp [Sequence.handler, h, run_applyNotices]
  | failure es => cases h : s.onError <;> simp [Sequence.handler, h, run_applyNotices]

/-- Machine and status are left alone, and nothing is heard of the run. -/
def Undisturbed (x : Site κ) (r : Site κ × List (Happening κ)) : Prop :=
  r.1.context.machine = x.context.machine ∧ r.1.context.status = x.context.status ∧
    ∀ h ∈ r.2, ¬ h.OfRun

theorem react_cases (hi : x.Admits i) (hm : x.context.machine = some m)
    (hl : .launched ∉ (x.react i).2) :
    x.Undisturbed (x.react i) ∨
    (∃ t windingUp, x.stage = some (.moving t windingUp) ∧
      x.react i = follow x.context (m.turn t windingUp)) ∨
    (x.stage = some .choosing ∨ x.stage = some .settle ∧ m.parked ≠ none) ∧
      ∃ p, (x.react i).1.context = { x.context with machine := some { m with parked := p } } ∧
        (x.react i).2 = [] := by
  cases i with
  | user d n =>
    cases d with
    | post signal deferred => exact .inl ⟨rfl, rfl, by simp [react, Happening.OfRun]⟩
    | launch s =>
      by_cases ha : accepts x.context = true
      · rw [react_launch_of_accepts ha] at hl
        exact absurd (List.mem_cons_self ..) hl
      · rw [react_launch_of_not_accepts ha]
        exact .inl ⟨rfl, rfl, by simp [Happening.OfRun]⟩
    | panic => exact .inl ⟨rfl, rfl, List.forall_mem_nil _⟩
    | answer text =>
      obtain ⟨stage, hs, hc⟩ := hi
      cases stage with
      | poll | moving | settle => exact absurd hc not_false
      | calling =>
        refine .inl ?_
        simp only [react, hs]
        exact ⟨rfl, rfl, List.forall_mem_nil _⟩
      | choosing =>
        refine .inr (.inr ⟨.inl hs, some (.goto text), ?_⟩)
        simp only [react, hs, hm]
        exact ⟨rfl, trivial⟩
  | drive =>
    obtain ⟨stage, hs, hc⟩ := hi
    rw [react_drive hs]
    cases stage with
    | calling | choosing => exact absurd trivial hc
    | moving t windingUp =>
      exact .inr (.inl ⟨t, windingUp, hs, drive_moving hm t windingUp⟩)
    | poll =>
      refine .inl ?_
      cases hq : x.context.queue.pop? with
      | none =>
        rw [drive_poll_empty hq]
        exact ⟨rfl, rfl, List.forall_mem_nil _⟩
      | some p =>
        rw [drive_poll_applied hq hm]
        exact ⟨rfl, rfl, by simp [Happening.OfRun]⟩
    | settle =>
      cases hp : m.parked with
      | none =>
        rw [drive_settle_rest (by rw [hm]; exact hp)]
        exact .inl ⟨rfl, rfl, List.forall_mem_nil _⟩
      | some p =>
        rw [drive_settle_parked (p := p) (by rw [hm]; exact hp)]
        exact .inr (.inr ⟨.inr ⟨hs, Option.some_ne_none p⟩, none, by rw [hm]; rfl, rfl⟩)

theorem react_of_finished (hx : x.Tracked) (hi : x.Admits i) (hm : x.context.machine = some m)
    (hf : m.isFinished = true) (hl : .launched ∉ (x.react i).2) :
    x.Undisturbed (x.react i) := by
  obtain ⟨u, hu, rfl, ha⟩ := hx.machine m hm
  obtain ⟨ho, hact⟩ := hu.idles hf
  rcases react_cases hi hm hl with h | ⟨t, windingUp, hs, hr⟩ | ⟨hs | ⟨-, hp⟩, -⟩
  · exact h
  · rw [hs] at ha
    rw [show u.act = .work t windingUp from ha] at hact
    obtain ⟨rfl, signal, rfl⟩ := hact
    -- The signal is only reported.
    obtain ⟨ns, ht, -⟩ := ho.turn signal
    have hn := applyNotices_of_reports (ho.active_not_mem_turn signal) x.context.status
    rw [ht] at hn
    rw [hr, ht]
    refine ⟨hm.symm, hn, fun h hh => happening?_not_ofRun hh⟩
  · rw [hs] at ha
    obtain ⟨r, ps, ha⟩ := ha
    rw [ha] at hact
    exact absurd hact not_false
  · exact absurd ho.parked hp

theorem Undisturbed.trans {r r' : Site κ × List (Happening κ)} (h : x.Undisturbed r)
    (h' : r.1.Undisturbed r') : x.Undisturbed (r'.1, r.2 ++ r'.2) :=
  ⟨h'.1.trans h.1, h'.2.1.trans h.2.1, List.forall_mem_append.mpr ⟨h.2.2, h'.2.2⟩⟩

theorem Running.append (h : x.Running s run hs) {x' : Site κ} (hm : x'.context.machine = some m)
    (hroot : m.root.sequence = s) (hf : m.isFinished = false)
    (hrun : x'.context.status.run = x.context.status.run)
    (ho : x'.context.status.outcome = x.context.status.outcome) (hq : ∀ h ∈ hs', ¬ h.Closes) :
    x'.Running s run (hs ++ hs') where
  machine := ⟨m, hm, hroot, hf⟩
  run := hrun.trans h.run
  outcome := ho.trans h.outcome
  quiet := List.forall_mem_append.mpr ⟨h.quiet, hq⟩

theorem Running.follow (h : x.Running s run hs) {u : Turn κ} (hu : u.Underway)
    (hroot : u.machine.root.sequence = s)
    (hhandler : ∀ o handler, u.act = .finished o handler → handler = s.handler o) :
    (follow x.context u).1.Running s run (hs ++ (follow x.context u).2) ∨
      ∃ o, (follow x.context u).1.Completed s run o (hs ++ (follow x.context u).2) := by
  by_cases hfin : ∃ o handler, u.act = .finished o handler
  · obtain ⟨o, handler, hfin⟩ := hfin
    obtain rfl := hhandler o handler hfin
    simp only [Turn.Underway, hfin] at hu
    obtain ⟨hc, he⟩ := follow_finished (y := x.context) hfin
    refine .inr ⟨o, ⟨_, by rw [hc], hroot, hu.1.finished, hu.2⟩, by rw [hc, h.run], ?_⟩
    refine ⟨hs ++ _, [], by rw [he, List.append_nil, List.append_assoc], ?_,
      List.forall_mem_nil _⟩
    exact List.forall_mem_append.mpr ⟨h.quiet, fun h hh hc => happening?_not_ofRun hh hc.ofRun⟩
  · have hne : ∀ o handler, u.act ≠ .finished o handler :=
      fun o handler he => hfin ⟨o, handler, he⟩
    obtain ⟨hc, hq⟩ := follow_of_ne_finished (y := x.context) hne
    exact .inl (h.append (by rw [hc]) hroot (hu.live hne).isFinished
      (by rw [hc, run_applyNotices]) (by rw [hc, outcome_applyNotices]) hq)

theorem Running.react (h : x.Running s run hs) (hx : x.Tracked) (hi : x.Admits i)
    (hl : .launched ∉ (x.react i).2) :
    (x.react i).1.Running s run (hs ++ (x.react i).2) ∨
      ∃ o, (x.react i).1.Completed s run o (hs ++ (x.react i).2) := by
  obtain ⟨m, hm, hroot, hf⟩ := h.machine
  rcases react_cases hi hm hl with ⟨hm', hst, hq⟩ | ⟨t, windingUp, hstage, hr⟩ | ⟨-, p, hc, he⟩
  · exact .inl (h.append (hm'.trans hm) hroot hf (by rw [hst]) (by rw [hst])
      fun h hh hc => hq h hh hc.ofRun)
  · obtain ⟨u, hu, rfl, ha⟩ := hx.machine m hm
    rw [hstage] at ha
    have hact : u.act = .work t windingUp := ha
    have hun := hu.underway_of_work hf hact
    simp only [Turn.Underway, hact] at hun
    obtain ⟨hlive, hp, ht, hw⟩ := hun
    have hroot' := (hlive.root_sequence_turn hp ht hw).trans hroot
    rw [hr]
    refine h.follow (hlive.turn hp ht hw) hroot' fun o handler hfin => ?_
    rw [hlive.handler_turn hp ht hw hfin, hroot]
  · exact .inl (h.append (m := { m with parked := p }) (by rw [hc]) hroot hf (by rw [hc])
      (by rw [hc]) (by rw [he]; exact List.forall_mem_nil _))

theorem Completed.react (h : x.Completed s run o hs) (hx : x.Tracked) (hi : x.Admits i)
    (hl : .launched ∉ (x.react i).2) :
    (x.react i).1.Completed s run o (hs ++ (x.react i).2) := by
  obtain ⟨m, hm, hroot, hf, ho⟩ := h.machine
  obtain ⟨hm', hst, hq⟩ := react_of_finished hx hi hm hf hl
  obtain ⟨before, after, rfl, hb, ha⟩ := h.told
  refine ⟨⟨m, hm'.trans hm, hroot, hf, ho⟩, hst.trans h.status, before, after ++ (x.react i).2, ?_,
    hb, List.forall_mem_append.mpr ⟨ha, hq⟩⟩
  simp only [List.append_assoc]

end

end Site

namespace Engine
variable {host : Host κ σ ε} {w : World κ σ} {c : ContextId} {s : Sequence κ}
  {rest : List (Activation κ σ ε)} {k : Code κ σ ε} {log es : List (Event κ ε)} {run : Nat}
  {a b : Config κ σ ε} {ds : List (ContextId × Impulse κ)}

theorem Course.undisturbed (ha : a.Tracked) (hf : (a.world.context c).rootFinished = true)
    (h : Course host a ds es b) (hl : .launched ∉ happenings c es) :
    (site c a).Undisturbed (site c b, happenings c es) := by
  refine h.induct_site (motive := fun x _ hs => .launched ∉ hs → (site c a).Undisturbed (x, hs))
    ha c (fun _ => ⟨rfl, rfl, List.forall_mem_nil _⟩) ?_ hl
  intro x _ hs i hx hi ih hl
  obtain ⟨hl, hl'⟩ := not_or.mp (mt List.mem_append.mpr hl)
  obtain ⟨m, hm, hf⟩ := (Option.any_eq_true ..).mp hf
  have ih := ih hl
  exact ih.trans (Site.react_of_finished hx hi (ih.1.trans hm) hf hl')

theorem Course.running_or_completed (ha : a.Tracked) (hr : (site c a).Running s run [])
    (h : Course host a ds es b) (hl : .launched ∉ happenings c es) :
    (site c b).Running s run (happenings c es) ∨
      ∃ o, (site c b).Completed s run o (happenings c es) := by
  refine h.induct_site (motive := fun x _ hs => .launched ∉ hs → x.Running s run hs ∨
    ∃ o, x.Completed s run o hs) ha c (fun _ => .inl hr) ?_ hl
  intro x _ hs i hx hi ih hl
  obtain ⟨hl, hl'⟩ := not_or.mp (mt List.mem_append.mpr hl)
  rcases ih hl with hr | ⟨o, hc⟩
  · exact hr.react hx hi hl'
  · exact .inr ⟨o, hc.react hx hi hl'⟩

/-- A run that is launched is running until it is completed, and completed for good. Its outcome is
recorded in the step in which its root becomes finished, and never again; there, and nowhere else,
the handler of the root sequence that the outcome selects is called, if there is one, and finds the
run finished and no sequence active. After that no signal disturbs machine or status and no user
code is called for the run, until the next launch. -/
theorem completes_once (h : Reachable host ⟨w, .code (.launch c s k) :: rest⟩ log)
    (ha : accepts (w.context c) = true) :
    ∃ a, step host ⟨w, .code (.launch c s k) :: rest⟩ =
        .more a [.launched c (w.started + 1), .posted c .next false] ∧
      ∀ ds es b, Course host a ds es b → .launched ∉ happenings c es →
        ((site c b).Running s (w.started + 1) (happenings c es) ∨
          ∃ o, (site c b).Completed s (w.started + 1) o (happenings c es)) ∧
        (∀ b' es', step host b = .more b' es' → .launched ∉ happenings c es' →
          ((∃ o, .finished o ∈ happenings c es') ↔ (b.world.context c).rootFinished = false ∧
            (b'.world.context c).rootFinished = true)) ∧
        ((b.world.context c).rootFinished = true → ∀ ds' es' b', Course host b ds' es' b' →
          .launched ∉ happenings c es' →
          (site c b).Undisturbed (site c b', happenings c es')) := by
  obtain ⟨a, hs, hx⟩ := step_launch host ha s k rest
  have hta : a.Tracked := (h.step hs).tracked.1
  have hrun : (site c a).Running s (w.started + 1) [] := by
    rw [hx]
    exact ⟨⟨_, rfl, rfl, rfl⟩, rfl, rfl, nofun⟩
  refine ⟨a, hs, fun ds es b hc hl => ?_⟩
  have hb := hc.running_or_completed hta hrun hl
  refine ⟨hb, fun b' es' hs' hl' => ?_, fun hf ds' es' b' hc' hl' =>
    hc'.undisturbed (hc.tracked hta) hf hl'⟩
  have hl2 : .launched ∉ happenings c (es ++ es') := by
    rw [happenings_append]
    exact mt List.mem_append.mp (not_or.mpr ⟨hl, hl'⟩)
  have hb' := (hc.step hs').running_or_completed hta hrun hl2
  rw [happenings_append] at hb'
  rcases hb with hb | ⟨o, hb⟩
  · rcases hb' with hb' | ⟨o, hb'⟩
    · refine ⟨fun ⟨o, ho⟩ => absurd trivial (hb'.quiet _ (List.mem_append_right _ ho)), ?_⟩
      exact fun hf => absurd (hb'.rootFinished.symm.trans hf.2) nofun
    · refine ⟨fun _ => ⟨hb.rootFinished, hb'.rootFinished⟩, fun _ => ⟨o, ?_⟩⟩
      obtain ⟨before, after, he, -, -⟩ := hb'.told
      have ho : .finished o ∈ happenings c es ++ happenings c es' := by
        rw [he]
        simp [Sequence.ending]
      exact (List.mem_append.mp ho).resolve_left fun ho => hb.quiet _ ho trivial
  · -- The run is over already, so nothing is heard of it any more.
    have hq := (Course.refl.step hs').undisturbed (hc.tracked hta) hb.rootFinished
      (by rwa [List.nil_append])
    refine ⟨fun ⟨o, ho⟩ => (hq.2.2 (.finished o) (by rwa [List.nil_append]) trivial).elim, ?_⟩
    exact fun hf => absurd (hf.1.symm.trans hb.rootFinished) nofun

def belated : Host Nat Unit Unit
  | .success _, c => .post c .next false (.done "")
  | _, _ => .done ""

def nesting : Sequence Nat :=
  { entries := [.sequence ⟨none, { onSuccess := some 1 }, none⟩], onSuccess := some 0 }

theorem nesting_completes_once :
    ∃ a ds es b, step belated ⟨{ host := () }, [.code (.launch 0 nesting (.done ""))]⟩ =
        .more a [.launched 0 1, .posted 0 .next false] ∧
      Course belated a ds es b ∧ (∃ o, (site 0 b).Completed nesting 1 o (happenings 0 es)) ∧
      ∃ ds' es' b', Course belated b ds' es' b' ∧ b'.stack = [.code (.done "")] ∧
        happenings 0 es' = [.posted .next false, .taken .next true,
          .reported (.faultAfterCompletion (.finished "next"))] ∧
        (site 0 b).Undisturbed (site 0 b', happenings 0 es') := by
  have hstart : Reachable belated _ _ := .start () (.launch 0 nesting (.done ""))
  obtain ⟨a, hs, honce⟩ := completes_once hstart rfl
  have stay {a b : Config Nat Unit Unit} {ds : List (ContextId × Impulse Nat)}
      {es : List (Event Nat Unit)} (_ : Course belated a ds es b) :
      Course belated b [] [] b := .refl
  have h0 : Course belated a [] [] a := .refl
  obtain ⟨rfl, -⟩ := Progress.more.inj hs
  -- Up to the call of the handler.
  have h4 : Course belated _ _ _ _ := (((h0.step rfl).step rfl).step rfl).step rfl
  have h8 : Course belated _ _ _ _ := (((h4.step rfl).step rfl).step rfl).step rfl
  obtain ⟨hb, -, hlast⟩ := honce _ _ _ h8 (show .launched ∉
    [Happening.taken .next true, .finished .success, .called (.success 0) none] by simp)
  -- What it posts is applied in vain.
  have h4' : Course belated _ _ _ _ := ((((stay h8).step rfl).step rfl).step rfl).step rfl
  have h7' : Course belated _ _ _ _ := ((h4'.step rfl).step rfl).step rfl
  refine ⟨_, _, _, _, hs, h8, hb.resolve_left fun hr => ?_, _, _, _, h7', rfl, rfl,
    hlast rfl _ _ _ h7' ?_⟩
  · exact absurd (hr.rootFinished.symm.trans rfl : false = true) nofun
  · show .launched ∉ [Happening.posted .next false, .taken .next true, .reported _]
    simp

end Engine
end Sequencer
