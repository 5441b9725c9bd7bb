import Sequencer.Proofs.Machine.Accounts
import Sequencer.Proofs.Machine.Flattening

/-! Faults. Only three kinds of fault are raised while a run goes on. Such a fault ends the run and
its message comes last in the outcome, so there is one at most; what a run that is over is asked to
do changes nothing in it. -/

namespace Sequencer
variable {κ : Type}

def Fault.EndsRun : Fault → Prop
  | .noConstruct _ | .emptyLabel | .unknownLabel _ => True
  | .finished _ | .unknownPrimitive _ | .noLoop | .contextBusy => False

def messages (fs : List Fault) : List Json := fs.map fun f => .string f.message

def Move.faults (mv : Move κ) : List Fault :=
  match mv.sequel with
  | .fault f => [f]
  | _ => []

theorem Move.message_eq (mv : Move κ) : mv.message = messages mv.faults := by
  obtain ⟨m, ns, q⟩ := mv
  cases q <;> rfl

/-- If the move faults it has done nothing else. -/
def Move.FaultsAt (m : Machine κ) (mv : Move κ) : Prop :=
  ∀ f, mv.sequel = .fault f → f = .noLoop ∨ mv.machine = m ∧ f.EndsRun

namespace Machine
variable {m : Machine κ}

theorem faultsAt_of_no_faults {mv : Move κ} (h : mv.faults = []) : mv.FaultsAt m := by
  intro f hf
  rw [Move.faults, hf] at h
  exact absurd h (List.cons_ne_nil f [])

theorem faultsAt_raise {f : Fault} (hf : f.EndsRun) : (m.raise f).FaultsAt m := by
  intro g hg
  obtain rfl := Sequel.fault.inj hg
  exact .inr ⟨rfl, hf⟩

theorem faultsAt_noLoop (m x : Machine κ) : (x.raise .noLoop).FaultsAt m :=
  fun _ hg => .inl (Sequel.fault.inj hg).symm

theorem faultsAt_advance (m x : Machine κ) : x.advance.FaultsAt m := by
  unfold advance
  split <;> exact faultsAt_of_no_faults rfl

theorem faultsAt_runBlock (m x : Machine κ) : x.runBlock.FaultsAt m := by
  unfold runBlock
  split
  · exact faultsAt_of_no_faults rfl
  · exact faultsAt_noLoop m x

theorem faultsAt_checkLoop (m x : Machine κ) : x.checkLoop.FaultsAt m := by
  unfold checkLoop
  split
  · split
    · exact faultsAt_runBlock m x
    · exact faultsAt_of_no_faults rfl
  · exact faultsAt_noLoop m x

theorem faultsAt_exitBody (m x : Machine κ) (es : List Json) : (x.exitBody es).FaultsAt m := by
  unfold exitBody
  split
  · exact faultsAt_of_no_faults rfl
  · exact faultsAt_noLoop m x

theorem faultsAt_repeatBody (m x : Machine κ) (es : List Json) :
    (x.repeatBody es).FaultsAt m := by
  unfold repeatBody
  split
  · exact faultsAt_of_no_faults rfl
  · exact faultsAt_noLoop m x

theorem faultsAt_branch (m x : Machine κ) (e : Option (Entry κ)) : (x.branch e).FaultsAt m := by
  cases e <;> exact faultsAt_of_no_faults rfl

theorem faultsAt_step (h : m.active.finished = false) (t : Task κ) : (m.step t).FaultsAt m := by
  have hf : ¬ m.active.finished = true := by simp [h]
  cases t with
  | next =>
    rw [step, next, if_neg hf]
    split
    · exact faultsAt_of_no_faults rfl
    · exact faultsAt_advance m m
  | proceed primitive =>
    rw [step, proceed, if_neg hf]
    split
    · exact faultsAt_runBlock m m
    · exact faultsAt_branch m _ _
    · split
      · exact faultsAt_raise trivial
      · dsimp only
        split
        · exact faultsAt_repeatBody m _ _
        · exact faultsAt_of_no_faults rfl
  | leave =>
    rw [step, leave, if_neg hf]
    dsimp only
    split
    · exact faultsAt_branch m _ _
    · exact faultsAt_of_no_faults rfl
    · split
      · exact faultsAt_of_no_faults rfl
      · split
        · exact faultsAt_exitBody m _ _
        · exact faultsAt_of_no_faults rfl
  | complete =>
    rw [step, complete]
    split
    · exact faultsAt_of_no_faults rfl
    · split
      · exact faultsAt_of_no_faults rfl
      · dsimp only
        split
        · exact faultsAt_exitBody m _ _
        · exact faultsAt_of_no_faults rfl
  | goto text =>
    rw [step, goto, if_neg hf]
    split
    · exact faultsAt_raise trivial
    · split_ifs
      · exact faultsAt_of_no_faults rfl
      · exact faultsAt_of_no_faults rfl
      · exact faultsAt_of_no_faults rfl
      · split
        · exact faultsAt_raise trivial
        · exact faultsAt_advance m _
  | errors values breakOnEmit =>
    rw [step, emit, if_neg hf]
    split <;> exact faultsAt_of_no_faults rfl
  | finish => exact fun f hf => absurd hf (sequel_finish_ne_fault m f)
  | dispatch entry fallback =>
    unfold step dispatch
    dsimp only
    split
    case h_3 => exact faultsAt_checkLoop m _
    all_goals exact faultsAt_of_no_faults rfl
  | checkLoop => exact faultsAt_checkLoop m m
  | exitLoop st =>
    rw [step, exitLoop]
    split_ifs
    · exact faultsAt_of_no_faults rfl
    · exact faultsAt_of_no_faults rfl
    · split <;> exact faultsAt_of_no_faults rfl
    · split <;> exact faultsAt_of_no_faults rfl

theorem Live.fault_step (h : m.Live) (hp : m.parked = none) {t : Task κ} (ht : t.Fits m)
    {f : Fault} (hf : (m.step t).sequel = .fault f) : (m.step t).machine = m ∧ f.EndsRun := by
  have hs := h.step hp ht
  unfold Move.Underway at hs
  rw [hf] at hs
  exact (faultsAt_step h.active_finished t f hf).resolve_left hs.2.2

theorem Live.next_of_fault (h : m.Live) (hp : m.parked = none) {t : Task κ} (ht : t.Fits m)
    {windingUp : Bool} (hw : windingUp = true → t = .finish) {f : Fault}
    (hf : (m.step t).sequel = .fault f) :
    f.EndsRun ∧ ∃ ns, m.turn t windingUp = ⟨m.foldFault f, ns, .work .finish true⟩ := by
  obtain ⟨hm, hends⟩ := h.fault_step hp ht hf
  refine ⟨hends, ?_⟩
  rcases h.turn_cases hp ht hw with ⟨a, ha, -⟩ | ⟨g, hg, he⟩
  · rw [hf] at ha
    exact absurd ha nofun
  · obtain rfl := Sequel.fault.inj (hf.symm.trans hg)
    rw [hm, withParked_eq hp] at he
    exact ⟨_, he⟩

theorem Live.gathered_finish (h : m.Live) :
    (m.step .finish).machine.gathered = m.gathered := by
  cases hc : m.children with
  | nil =>
    rw [h.step_finish_root hc]
    obtain ⟨r, cs, p⟩ := m
    obtain rfl : cs = [] := hc
    rfl
  | cons c cs =>
    rw [h.step_finish_child hc]
    exact gathered_leaveChild hc

end Machine

namespace Turn
variable {u v : Turn κ} {us : List (Turn κ)} {s : Sequence κ} {es : List Json} {fs : List Fault}

def said (u : Turn κ) : List Json :=
  match u.act with
  | .work t _ => t.message
  | _ => []

def faults (u : Turn κ) : List Fault :=
  match u.act with
  | .work t _ => if u.machine.isFinished then [] else (u.machine.step t).faults
  | _ => []

/-- A run of the sequence up to a turn: the turns before it, what signals and entries have said, and
the faults there have been. -/
inductive Chronicle (s : Sequence κ) : List (Turn κ) → List Json → List Fault → Turn κ → Prop
  | start : Chronicle s [] [] [] ⟨Machine.start s, [], .settle⟩
  | receive {us : List (Turn κ)} {es : List Json} {fs : List Fault} {u : Turn κ}
    (h : Chronicle s us es fs u) (idle : u.Idle) (sig : Signal) :
    Chronicle s (us ++ [u]) (es ++ sig.values) fs (u.machine.receive sig)
  | next {us : List (Turn κ)} {es : List Json} {fs : List Fault} {u v : Turn κ}
    (h : Chronicle s us es fs u) (hn : Next u v) :
    Chronicle s (us ++ [u]) (es ++ u.said) (fs ++ u.faults) v

theorem Chronicle.occurs (h : Chronicle s us es fs u) : u.Occurs := by
  induction h with
  | start => exact .start s
  | receive _ idle sig ih => exact ih.receive idle sig
  | next _ hn ih => exact ih.next hn

theorem Idle.act_ne_work (h : u.Idle) (t : Task κ) (w : Bool) : u.act ≠ .work t w := by
  intro ha
  rw [Idle, ha] at h
  exact h

theorem Occurs.machine_of_finished (h : u.Occurs) (hf : u.machine.isFinished = true)
    (hn : Next u v) : v.machine = u.machine := by
  obtain ⟨hover, ha⟩ := h.idles hf
  cases hn with
  | work =>
    obtain ⟨rfl, sig, rfl⟩ := ha
    obtain ⟨ns, ht, -⟩ := hover.turn sig
    rw [ht]
  | unpark hp => exact absurd (hover.parked.symm.trans hp) nofun
  | called | told => rfl
  | resolved => exact absurd ha not_false

/-- What a run holds ends with the message of its fault, if there has been one. -/
def Sealed (fs : List Fault) (m : Machine κ) : Prop :=
  fs = [] ∨ ∃ f, fs = [f] ∧ f.EndsRun ∧ ∃ rest, m.gathered = rest ++ messages [f]

/-- There has been a fault only if the run is being wound up or is over. -/
def Clear (fs : List Fault) (u : Turn κ) : Prop :=
  u.machine.isFinished = false → (∀ t, u.act ≠ .work t true) → fs = []

theorem clear_finish {m : Machine κ} (h : m.Live) {a : Act κ}
    (ha : (m.step .finish).sequel.act? true = some a) (fs : List Fault) (ns : List Notice) :
    Clear fs ⟨(m.step .finish).machine, ns, a⟩ := by
  intro hu hne
  cases hc : m.children with
  | nil =>
    rw [h.step_finish_root hc] at hu
    obtain ⟨r, cs, p⟩ := m
    obtain rfl : cs = [] := hc
    exact absurd hu nofun
  | cons c cs =>
    rw [h.step_finish_child hc] at ha
    exact absurd (Option.some.inj ha).symm (hne .finish)

theorem faults_of_unfinished {m : Machine κ} (hf : m.isFinished = false) (ns : List Notice)
    (t : Task κ) (w : Bool) : faults ⟨m, ns, .work t w⟩ = (m.step t).faults :=
  if_neg (by simp [hf])

/-- There is no fault but in a run that has had none. -/
theorem sealed_turn {m : Machine κ} {ns : List Notice} {t : Task κ} {w : Bool}
    (h : Underway ⟨m, ns, .work t w⟩) (hseal : Sealed fs m) (hclear : Clear fs ⟨m, ns, .work t w⟩) :
    Sealed (fs ++ faults ⟨m, ns, .work t w⟩) (m.turn t w).machine ∧
      Clear (fs ++ faults ⟨m, ns, .work t w⟩) (m.turn t w) := by
  obtain ⟨hl, hp, ht, hw⟩ := h
  rw [faults_of_unfinished hl.isFinished]
  rcases hl.turn_cases hp ht hw with ⟨a, ha, he⟩ | ⟨f, hf, -⟩
  · have hnone : (m.step t).faults = [] := by
      unfold Move.faults
      split
      next f hf =>
        rw [hf] at ha
        exact absurd ha nofun
      next => rfl
    rw [hnone, List.append_nil, he]
    cases w with
    | true =>
      obtain rfl := hw rfl
      refine ⟨?_, clear_finish hl ha fs _⟩
      rw [Sealed, hl.gathered_finish]
      exact hseal
    | false =>
      have hnil : fs = [] := hclear hl.isFinished fun t' ha' => absurd (Act.work.inj ha').2 nofun
      exact ⟨.inl hnil, fun _ _ => hnil⟩
  · obtain ⟨hends, ns', he⟩ := hl.next_of_fault hp ht hw hf
    -- Winding up raises no fault, so the run is not being wound up yet.
    have hnil : fs = [] := by
      refine hclear hl.isFinished fun t' ha => ?_
      obtain ⟨rfl, rfl⟩ := Act.work.inj ha
      obtain rfl := hw rfl
      exact Machine.sequel_finish_ne_fault m f hf
    have hone : (m.step t).faults = [f] := by simp only [Move.faults, hf]
    rw [hnil, hone, he]
    exact ⟨.inr ⟨f, rfl, hends, m.gathered, m.gathered_foldFault f⟩,
      fun _ ha => absurd rfl (ha .finish)⟩

theorem Next.sealed (hn : Next u v) (h : u.Occurs) (hseal : Sealed fs u.machine)
    (hclear : Clear fs u) : Sealed (fs ++ u.faults) v.machine ∧ Clear (fs ++ u.faults) v := by
  cases hf : u.machine.isFinished with
  | true =>
    have hm := h.machine_of_finished hf hn
    have hnone : u.faults = [] := by
      unfold faults
      split
      · exact if_pos hf
      · rfl
    rw [hnone, List.append_nil, hm]
    refine ⟨hseal, fun hu => ?_⟩
    rw [hm, hf] at hu
    exact absurd hu nofun
  | false =>
    have hu := h.underway_of_next hf hn
    cases hn with
    | work => exact sealed_turn hu hseal hclear
    | unpark | called | resolved =>
      have hnil : fs = [] := hclear hf nofun
      exact ⟨.inl (by rw [hnil]; rfl), fun _ _ => by rw [hnil]; rfl⟩
    | told => exact absurd (hf.symm.trans hu.1.finished) nofun

theorem Chronicle.sealed (h : Chronicle s us es fs u) : Sealed fs u.machine ∧ Clear fs u := by
  induction h with
  | start => exact ⟨.inl rfl, fun _ _ => rfl⟩
  | receive _ idle sig ih =>
    exact ⟨ih.1, fun hu _ => ih.2 hu fun t => idle.act_ne_work t true⟩
  | next h hn ih => exact hn.sealed h.occurs ih.1 ih.2

theorem emitted_of_unfinished (hf : u.machine.isFinished = false) :
    u.emitted = u.said ++ messages u.faults := by
  obtain ⟨m, ns, a⟩ := u
  cases a with
  | work t w =>
    show t.message ++ (m.step t).message = t.message ++ messages (faults ⟨m, ns, .work t w⟩)
    rw [Move.message_eq, faults_of_unfinished hf]
  | settle | call | resolve | finished => rfl

theorem messages_append (fs gs : List Fault) : messages (fs ++ gs) = messages fs ++ messages gs :=
  List.map_append ..

theorem said_of_faults (h : u.Underway) (hf : u.machine.isFinished = false) (hclear : Clear fs u) :
    messages fs ++ u.said = u.said ++ messages fs := by
  by_cases hw : ∃ t, u.act = .work t true
  · obtain ⟨t, ha⟩ := hw
    obtain ⟨m, ns, a⟩ := u
    obtain rfl : a = .work t true := ha
    obtain rfl := h.2.2.2 rfl
    exact List.append_nil _
  · rw [hclear hf fun t ha => hw ⟨t, ha⟩]
    exact (List.append_nil _).symm

theorem Chronicle.history (h : Chronicle s us es fs u) (hu : u.Open) :
    History s us (es ++ messages fs) u := by
  induction h with
  | start => exact .start
  | @receive us es fs u h idle sig ih =>
    have hopen : u.machine.isFinished = false := by
      rcases hu with hu | ⟨o, handler, hu⟩
      · exact hu
      · exact absurd hu nofun
    have hnil : fs = [] := h.sealed.2 hopen fun t => idle.act_ne_work t true
    have hh := ih (.inl hopen)
    rw [hnil, messages, List.map_nil, List.append_nil] at hh ⊢
    exact hh.receive idle sig
  | @next us es fs u v h hn ih =>
    have hopen := h.occurs.unfinished_of_open hn hu
    have hunder := h.occurs.underway_of_next hopen hn
    have hh := (ih (.inl hopen)).next hn
    rw [emitted_of_unfinished hopen, List.append_assoc, ← List.append_assoc (messages fs),
      said_of_faults hunder hopen h.sealed.2] at hh
    simpa only [messages_append, List.append_assoc] using hh

theorem Sealed.length_le_one {m : Machine κ} (h : Sealed fs m) :
    fs.length ≤ 1 ∧ ∀ f ∈ fs, f.EndsRun := by
  rcases h with rfl | ⟨f, rfl, hends, -⟩
  · exact ⟨Nat.zero_le 1, List.forall_mem_nil _⟩
  · exact ⟨Nat.le_refl 1, List.forall_mem_singleton.mpr hends⟩

theorem Sealed.exists_rest {m : Machine κ} (h : Sealed fs m) :
    ∃ rest, m.gathered = rest ++ messages fs := by
  rcases h with rfl | ⟨f, rfl, -, hrest⟩
  · exact ⟨m.gathered, (List.append_nil _).symm⟩
  · exact hrest

/-- The outcome of a run: what has been said in it, as far as no loop was given up, and last the
message of the fault, if there has been one. -/
theorem Chronicle.outcome (h : Chronicle s us es fs u) (hf : u.machine.isFinished = true) :
    ∃ rest, u.machine.root.errors = rest ++ messages fs ∧
      ∀ o handler, u.act = .finished o handler → o.errors = u.machine.root.errors ∧
        (rest : Multiset Json) + pending (us.flatMap excused) + pending (us.flatMap forfeited) =
          es := by
  obtain ⟨rest, hrest⟩ := h.sealed.1.exists_rest
  have hover : u.machine.Over := (h.occurs.idles hf).1
  rw [hover.gathered] at hrest
  refine ⟨rest, hrest, fun o handler ha => ?_⟩
  have ho : o.errors = u.machine.root.errors := by
    rcases h.occurs.cases with hu | ⟨⟨hs, -⟩, -⟩ | ⟨-, sig, hs⟩
    · rw [Underway, ha] at hu
      rw [hu.2, Outcome.errors_ofErrors]
    · cases ha.symm.trans hs
    · cases ha.symm.trans hs
  have hopen : u.Open := .inr ⟨o, handler, ha⟩
  have hworth := (h.history hopen).worth hopen
  rw [worth_of_over hover ha, hrest, ← Multiset.coe_add, ← Multiset.coe_add] at hworth
  refine ⟨ho, add_right_cancel (b := (messages fs : Multiset Json)) ?_⟩
  rw [← hworth]
  abel

/-- Whether a run is ended by `end` or by a fault, the errors of its frames follow one another in
the outcome, outermost first. Of the errors of a whole run one at most is not said by a signal or an
entry: the message of a fault, which comes last. -/
theorem errors_flattened_with_one_fault :
    (∀ m : Machine κ, m.Reachable → m.isFinished = false →
      (m.receive .finish).EndsWith m.gathered) ∧
    (∀ (u : Turn κ) t w f, u.Occurs → u.machine.isFinished = false → u.act = .work t w →
      (u.machine.step t).sequel = .fault f →
        f.EndsRun ∧ ∃ v, Next u v ∧ v.machine.root.sequence = u.machine.root.sequence ∧
          v.EndsWith (u.machine.gathered ++ [.string f.message])) ∧
    ∀ (s : Sequence κ) us es fs v, Chronicle s us es fs v →
      fs.length ≤ 1 ∧ (∀ f ∈ fs, f.EndsRun) ∧
      (v.machine.isFinished = false → v.Idle → fs = []) ∧
      (v.machine.isFinished = true →
        (∃ rest, v.machine.root.errors = rest ++ messages fs ∧
          ∀ o handler, v.act = .finished o handler → o.errors = v.machine.root.errors ∧
            (rest : Multiset Json) + pending (us.flatMap excused) +
              pending (us.flatMap forfeited) = es) ∧
        ∀ w, Next v w → w.machine = v.machine) := by
  refine ⟨fun m hm hf => ?_, fun u t w f hu hf ha hq => ?_, fun s us es fs v h => ?_⟩
  · have hw := hm.wellFormed
    exact (hw.live hf).endsWith hw.parked _ _
  · have hunder := hu.underway_of_work hf ha
    obtain ⟨m, ns, a⟩ := u
    obtain rfl : a = .work t w := ha
    obtain ⟨hl, hp, ht, hw⟩ := hunder
    obtain ⟨hends, ns', he⟩ := hl.next_of_fault hp ht hw hq
    refine ⟨hends, _, .work, ?_⟩
    rw [he]
    refine ⟨rfl, ?_⟩
    have hwind := (Machine.live_foldFault hf f).endsWith hp ns' true
    rwa [m.gathered_foldFault] at hwind
  · obtain ⟨hone, hends⟩ := h.sealed.1.length_le_one
    refine ⟨hone, hends, fun hf idle => ?_, fun hf => ⟨h.outcome hf, fun w hn => ?_⟩⟩
    · exact h.sealed.2 hf fun t => idle.act_ne_work t true
    · exact h.occurs.machine_of_finished hf hn

end Turn

def layered : Sequence Unit :=
  { entries := [.error ⟨none, .message "outer", none, false⟩,
      .sequence ⟨none, { entries := [.error ⟨none, .message "inner", none, false⟩,
        .method { operation := () }] }, none⟩] }

def layeredAtWork : Machine Unit :=
  { root := { sequence := layered, cursor := 2, errors := [.string "outer"] }
    children := [⟨.nested,
      { sequence := { entries := [.error ⟨none, .message "inner", none, false⟩,
          .method { operation := () }] }
        cursor := 2, errors := [.string "inner"] }⟩] }

namespace Turn

theorem chronicle_layered : ∃ us, Chronicle layered us [.string "outer", .string "inner"] []
    ⟨layeredAtWork, [], .call { operation := () }⟩ := by
  have h0 : Chronicle layered _ _ _ _ := .start
  have inner : Chronicle layered _ _ _ _ :=
    (((((h0.receive rfl .next).next .work).next .work).next .work).next .work).next .work
  have called : Chronicle layered _ _ _ ⟨layeredAtWork, [], .call { operation := () }⟩ :=
    ((((inner.next .work).next .work).next .work).next .work).next .work
  exact ⟨_, called⟩

/-- The operation ends the run, or it has a loop go on where there is none: the nested sequence is
left first, and then there is a fault. -/
theorem layered_errors_flattened :
    layeredAtWork.Reachable ∧ layeredAtWork.isFinished = false ∧
    (layeredAtWork.receive .finish).EndsWith [.string "outer", .string "inner"] ∧
    ∃ us u v es o, Chronicle layered us [.string "outer", .string "inner"] [] u ∧ Next u v ∧
      (u.machine.step (.proceed "continue")).sequel = .fault (.noConstruct "continue") ∧
      v.EndsWith es ∧ es = [.string "outer", .string "inner",
        .string "SEQUENCE: called continue() with no conditional or loop awaiting a result"] ∧
      ∃ us v, Chronicle layered us [.string "outer", .string "inner"] [.noConstruct "continue"] v ∧
        v.act = .finished o none ∧ o.errors = es ∧
        (∃ rest, v.machine.root.errors = rest ++ messages [.noConstruct "continue"]) ∧
        ([Fault.noConstruct "continue"]).length ≤ 1 := by
  obtain ⟨us, called⟩ := chronicle_layered
  obtain ⟨ends, faults, runs⟩ := errors_flattened_with_one_fault (κ := Unit)
  have reachable : layeredAtWork.Reachable := ⟨_, called.occurs, trivial, rfl⟩
  have left : Chronicle layered _ _ _ _ := (called.receive trivial .proceed).next .work
  have whole : Chronicle layered _ _ _ _ := (left.next .work).next .work
  obtain ⟨-, v, hn, -, hv⟩ := faults _ _ _ _ left.occurs rfl rfl rfl
  obtain ⟨hone, -, -, hfinished⟩ := runs _ _ _ _ _ whole
  obtain ⟨⟨rest, hrest, hall⟩, -⟩ := hfinished rfl
  exact ⟨reachable, rfl, ends _ reachable rfl, _, _, v, _, _, left, hn, rfl, hv, rfl, _, _, whole,
    rfl, (hall _ _ rfl).1, ⟨rest, hrest⟩, hone⟩

end Turn
end Sequencer
