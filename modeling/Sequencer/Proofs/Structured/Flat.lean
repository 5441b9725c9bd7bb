import Sequencer.Proofs.Machine.Flattening
import Sequencer.Proofs.Machine.LoopErrors
import Sequencer.Proofs.Structured.Ending
import Sequencer.Proofs.Structured.Launch

/-! Flat sequences, of operations and error entries without jumps. They are handled one after the
other up to the first one that breaks, or to the last if errors do not break the sequence; the
outcome has the errors of those that were handled. -/

namespace Sequencer
variable {κ σ ε : Type}

/-- An entry of a flat sequence. An operation has the sequence go on, or it emits errors. -/
inductive Item (κ : Type) where
  | operation (label : Option String) (handle : κ) (params : List Json)
    (errors : Option (List Json))
  | error (label : Option String) (text : String) (breakOnEmit : Bool)

namespace Item

def entry : Item κ → Entry κ
  | .operation label handle params _ => .method { label, operation := handle, params }
  | .error label text breakOnEmit => .error ⟨label, .message text, none, breakOnEmit⟩

def reply? : Item κ → Option (Reply κ)
  | .operation label handle params none => some ({ label, operation := handle, params }, .next)
  | .operation label handle params (some values) =>
    some ({ label, operation := handle, params }, .errors values)
  | .error _ _ _ => none

def values : Item κ → List Json
  | .operation _ _ _ errors => errors.getD []
  | .error _ text _ => [.string text]

/-- The item breaks a sequence that lets errors break it, even if there is none among them. -/
def breaks : Item κ → Bool
  | .operation _ _ _ errors => errors.isSome
  | .error _ _ breakOnEmit => breakOnEmit

end Item

/-- The items that are handled: all of them, or those up to the first one that breaks. -/
def handled (breakOnError : Bool) (items : List (Item κ)) : List (Item κ) :=
  if breakOnError then
    items.takeWhile (!·.breaks) ++ (items.dropWhile (!·.breaks)).take 1
  else items

theorem handled_cons (b : Bool) (x : Item κ) (items : List (Item κ)) :
    handled b (x :: items) = x :: if x.breaks && b then [] else handled b items := by
  cases b with
  | false => simp [handled]
  | true => cases hx : x.breaks <;> simp [handled, hx]

theorem handled_of_not_breaks {items : List (Item κ)} (h : ∀ x ∈ items, x.breaks = false)
    (b : Bool) : handled b items = items := by
  induction items with
  | nil => cases b <;> rfl
  | cons x items ih =>
    obtain ⟨hx, hxs⟩ := List.forall_mem_cons.mp h
    rw [handled_cons, hx, ih hxs]
    rfl

def replies (items : List (Item κ)) : List (Reply κ) := items.filterMap Item.reply?

theorem replies_cons (x : Item κ) (items : List (Item κ)) :
    replies (x :: items) = x.reply?.toList ++ replies items := by
  cases hx : x.reply? <;> simp [replies, hx]

def Task.dispatched : Task κ → List (Entry κ)
  | .dispatch e _ => [e]
  | _ => []

def Turn.dispatched (u : Turn κ) : List (Entry κ) :=
  match u.act with
  | .work t _ => t.dispatched
  | _ => []

/-- The machine gets from one task to another by calls and answers, and it dispatches the entries on
its way. -/
def Handles (m : Machine κ) (t : Task κ) (rs : List (Reply κ)) (es : List (Entry κ)) (n : Machine κ)
    (u : Task κ) : Prop :=
  Performs m t rs n u ∧ ∀ ns, ∃ us ns', Turn.Plays ⟨m, ns, .work t false⟩ rs us
    ⟨n, ns', .work u false⟩ ∧ us.flatMap Turn.dispatched = es

namespace Handles
variable {m m' n : Machine κ} {t t' u : Task κ} {rs : List (Reply κ)} {es : List (Entry κ)}

theorem refl (m : Machine κ) (t : Task κ) : Handles m t [] [] m t :=
  ⟨.refl m t, fun ns => ⟨[], ns, .refl _, rfl⟩⟩

theorem go (h : m.step t = m'.go t') (rest : Handles m' t' rs es n u) :
    Handles m t rs (t.dispatched ++ es) n u := by
  obtain ⟨hp, hplays⟩ := rest
  refine ⟨.go h hp, fun ns => ?_⟩
  obtain ⟨us, ns', path, hus⟩ := hplays []
  have hn : Turn.Next ⟨m, ns, .work t false⟩ ⟨m', [], .work t' false⟩ :=
    .of_turn rfl (Machine.turn_of_go h false)
  exact ⟨_, ns', .next rfl hn path, by rw [List.flatMap_cons, hus]; rfl⟩

theorem call {c : MethodCall κ} {s : Signal} (h : m.step t = m'.invoke c) (hp : m'.parked = none)
    (rest : Handles m' s.task rs es n u) :
    Handles m t ((c, s) :: rs) (t.dispatched ++ es) n u := by
  obtain ⟨hperf, hplays⟩ := rest
  refine ⟨.call h hp hperf, fun ns => ?_⟩
  obtain ⟨us, ns', path, hus⟩ := hplays []
  have hn : Turn.Next ⟨m, ns, .work t false⟩ ⟨m', [], .call c⟩ :=
    .of_turn rfl (Machine.turn_of_step h rfl)
  refine ⟨_, ns', .next rfl hn (.answer rfl path), ?_⟩
  rw [List.flatMap_cons, List.flatMap_cons, hus]
  rfl

end Handles

/-- The root on its way through the entries of a flat sequence. -/
def Sequence.reached (s : Sequence κ) (cursor : Nat) (errors : List Json) : Machine κ :=
  { root := { sequence := s, cursor, errors } }

namespace Sequence
variable {s : Sequence κ} {i : Nat} {es : List Json}

theorem ready_reached (s : Sequence κ) (i : Nat) (es : List Json) : (s.reached i es).Ready :=
  ⟨rfl, rfl, rfl⟩

theorem step_errors_reached (vs : List Json) (b : Bool) :
    (s.reached i es).step (.errors vs b) =
      (s.reached i (es ++ vs)).go (if b && s.breakOnError then .leave else .next) := rfl

theorem handles_item {x : Item κ} (hx : s.entries[i]? = some x.entry) {rs : List (Reply κ)}
    {ds : List (Entry κ)} {n : Machine κ} {u : Task κ}
    (rest : Handles (s.reached (i + 1) (es ++ x.values))
      (if x.breaks && s.breakOnError then .leave else .next) rs ds n u) :
    Handles (s.reached i es) .next (x.reply?.toList ++ rs) (x.entry :: ds) n u := by
  have hnext : (s.reached i es).step .next = (s.reached (i + 1) es).go (.dispatch x.entry none) :=
    Machine.step_next_some (ready_reached s i es) hx
  cases x with
  | error label text breakOnEmit =>
    have hdispatch : (s.reached (i + 1) es).step
        (.dispatch (.error ⟨label, .message text, none, breakOnEmit⟩) none) =
          (s.reached (i + 1) es).go (.errors [.string text] breakOnEmit) := rfl
    exact .go hnext (.go hdispatch (.go (step_errors_reached ..) rest))
  | operation label handle params errors =>
    have hcall := Machine.step_method (c := { label, operation := handle, params })
      (ready_reached s (i + 1) es) rfl
    cases errors with
    | none =>
      simp only [Item.values, Item.breaks, Option.getD_none, List.append_nil, Option.isSome_none,
        Bool.false_and, Bool.false_eq_true, if_false] at rest
      exact .go hnext (.call (s := .next) hcall rfl rest)
    | some vs =>
      exact .go hnext (.call (s := .errors vs) hcall rfl (.go (step_errors_reached ..) rest))

theorem handles_items {items : List (Item κ)} (h : s.entries.drop i = items.map Item.entry) :
    Handles (s.reached i es) .next (replies (handled s.breakOnError items))
      ((handled s.breakOnError items).map Item.entry)
      (s.reached (i + (handled s.breakOnError items).length)
        (es ++ (handled s.breakOnError items).flatMap Item.values)) .finish := by
  induction items generalizing i es with
  | nil =>
    have hnone : s.entries[i]? = none := List.getElem?_eq_none (List.drop_eq_nil_iff.mp h)
    have hnext : (s.reached i es).step .next = (s.reached i es).go .complete :=
      Machine.step_next_none (ready_reached s i es) hnone
    have hcomplete : (s.reached i es).step .complete = (s.reached i es).go .finish := rfl
    have hnil : handled s.breakOnError ([] : List (Item κ)) = [] :=
      handled_of_not_breaks (List.forall_mem_nil _) _
    rw [hnil, List.flatMap_nil, List.append_nil]
    exact .go hnext (.go hcomplete (.refl _ _))
  | cons x items ih =>
    have hx : s.entries[i]? = some x.entry := by
      rw [← Nat.add_zero i, ← List.getElem?_drop, h]
      rfl
    have hdrop : s.entries.drop (i + 1) = items.map Item.entry := by
      rw [← List.drop_drop, h]
      rfl
    rw [handled_cons, replies_cons, List.map_cons, List.flatMap_cons, List.length_cons,
      ← List.append_assoc, Nat.add_comm _ 1, ← Nat.add_assoc]
    refine handles_item hx ?_
    cases hb : x.breaks && s.breakOnError with
    | false => exact ih hdrop
    | true =>
      -- Leaving a root in which nothing awaits an answer ends the run.
      have hleave : (s.reached (i + 1) (es ++ x.values)).step .leave =
          (s.reached (i + 1) (es ++ x.values)).go .finish := rfl
      rw [if_pos rfl, if_pos rfl, List.flatMap_nil, List.append_nil]
      exact .go hleave (.refl _ _)

theorem turn_finish_reached (s : Sequence κ) (i : Nat) (es : List Json) :
    (s.reached i es).turn .finish false =
      ⟨{ root := { sequence := s, cursor := i, errors := es, finished := true } }, [],
        .finished (.ofErrors es) (s.handler (.ofErrors es))⟩ := by
  have hlive : (s.reached i es).Live := ⟨rfl, nofun, trivial⟩
  exact Machine.turn_of_step (hlive.step_finish_root rfl) rfl

end Sequence

namespace Engine
variable {host : Host κ σ ε} {c : ContextId} {w : World κ σ} {s : Sequence κ}

/-- A flat sequence under either policy. The items up to the first one that breaks are handled, each
once and in order, and their operations are all that is called; the outcome has the errors they have
emitted, and its handler is told. Errors break the sequence even if there is none among them. -/
theorem launch_flat (host : Host κ σ ε) {items : List (Item κ)}
    (he : s.entries = items.map Item.entry) (ha : accepts (w.context c) = true) (k : Code κ σ ε)
    (rest : List (Activation κ σ ε))
    (hplays : Plays host c ⟨w, .code (.launch c s k) :: rest⟩
      (replies (handled s.breakOnError items))) :
    ∃ o : Outcome, o.errors = (handled s.breakOnError items).flatMap Item.values ∧
      (o = .success ↔ (handled s.breakOnError items).flatMap Item.values = []) ∧
      (∃ us v, Turn.Plays ((Machine.start s).receive .next)
          (replies (handled s.breakOnError items)) us v ∧
        us.flatMap Turn.dispatched = (handled s.breakOnError items).map Item.entry ∧
        v.act = .finished o (s.handler o)) ∧
      (∃ w' m run ending, Steps host ⟨w, .code (.launch c s k) :: rest⟩ (run ++ ending)
          ⟨w', afterOutcome host c o (s.handler o) (.code k :: rest)⟩ ∧
        calls c run = (replies (handled s.breakOnError items)).map (·.1.invocation) ∧
        calls c ending = ((s.handler o).map o.invocation).toList ∧ outcomes c ending = [o] ∧
        m.isFinished = true ∧ Concluded c m o w') ∧
      ((∀ x ∈ items, ∃ l h ps, x = .operation l h ps none) →
        handled s.breakOnError items = items ∧ o = .success) := by
  have hall : Handles (s.reached 0 []) .next _ _ _ .finish := Sequence.handles_items he
  rw [Nat.zero_add, List.nil_append] at hall
  generalize hes : (handled s.breakOnError items).flatMap Item.values = es at hall ⊢
  have hfinish := s.turn_finish_reached (handled s.breakOnError items).length es
  refine ⟨.ofErrors es, Outcome.errors_ofErrors es, ?_, ?_, ?_, fun hnext => ?_⟩
  · cases es with
    | nil => exact iff_of_true rfl rfl
    | cons => exact iff_of_false nofun nofun
  · obtain ⟨us, ns, path, hus⟩ := hall.2 []
    have hend : Turn.Plays ⟨s.reached (handled s.breakOnError items).length es, ns,
        .work .finish false⟩ [] _ _ := .next rfl (.of_turn rfl hfinish) (.refl _)
    refine ⟨_, _, List.append_nil (replies _) ▸ path.trans hend, ?_, rfl⟩
    rw [List.flatMap_append, hus]
    exact List.append_nil _
  · obtain ⟨w₁, es₁, hb₁, hh₁, h₁, hc₁⟩ := steps_launch host ha s k rest
    obtain ⟨w₂, es₂, hb₂, h₂, hc₂⟩ :=
      steps_of_performs hall.1 hb₁ (hplays.of_steps h₁ hc₁ hh₁)
    obtain ⟨w₃, es₃, h₃, hc₃, ho₃, hw₃⟩ := steps_end host hb₂ hfinish rfl (.code k :: rest)
    refine ⟨w₃, _, es₁ ++ es₂, es₃, (h₁.trans h₂).trans h₃, ?_, hc₃, ho₃, rfl, hw₃⟩
    rw [calls_append, hc₁, hc₂]
    rfl
  · have hquiet : ∀ x ∈ items, x.breaks = false ∧ x.values = [] := by
      intro x hx
      obtain ⟨l, h, ps, rfl⟩ := hnext x hx
      exact ⟨rfl, rfl⟩
    have hitems := handled_of_not_breaks (fun x hx => (hquiet x hx).1) s.breakOnError
    rw [hitems, List.flatMap_eq_nil_iff.mpr fun x hx => (hquiet x hx).2] at hes
    exact ⟨hitems, by rw [← hes]; rfl⟩

def deliveries : List (Item Nat) :=
  [.operation none 1 [] none, .error none "late" false,
    .operation none 2 [] (some [.string "lost"]), .operation none 3 [] none]

def delivery : Sequence Nat :=
  { entries := deliveries.map Item.entry, onSuccess := some 8, onError := some 9 }

theorem launch_flat_delivery :
    ∃ w' m run ending, Steps (reader : Host Nat (List Signal) Unit)
        ⟨{ host := [.next, .errors [.string "lost"]] }, [.code (.launch 0 delivery (.done ""))]⟩
        (run ++ ending)
        ⟨w', afterOutcome reader 0 (.failure [.string "late", .string "lost"]) (some 9)
          [.code (.done "")]⟩ ∧
      calls 0 run = [.operation 1 [], .operation 2 []] ∧
      calls 0 ending = [.failure 9 [.string "late", .string "lost"]] ∧
      outcomes 0 ending = [.failure [.string "late", .string "lost"]] ∧ m.isFinished = true ∧
      Concluded 0 m (.failure [.string "late", .string "lost"]) w' := by
  have he : delivery.entries = deliveries.map Item.entry := rfl
  obtain ⟨o, ho, -, -, ⟨w', m, run, ending, hsteps, hrun, hending, hout, hm, hw'⟩, -⟩ :=
    launch_flat (reader : Host Nat (List Signal) Unit) (c := 0)
      (w := { host := [.next, .errors [.string "lost"]] }) he rfl (.done "") [] (plays_reader rfl)
  obtain rfl : o = .failure [.string "late", .string "lost"] := by
    cases o with
    | success => exact absurd ho nofun
    | failure es => exact congrArg Outcome.failure ho
  exact ⟨w', m, run, ending, hsteps, hrun, hending, hout, hm, hw'⟩

end Engine
end Sequencer
