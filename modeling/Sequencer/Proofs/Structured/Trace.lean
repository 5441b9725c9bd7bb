import Mathlib.Order.WellFounded
import Sequencer.Entry
import Sequencer.Signal

/-! What structured programs mean. A program without jumps calls its operations in the order in
which they are written; a condition picks a branch, and a loop repeats its block for as long as
its control says so. Traces record each call with the answer that it got. -/

namespace Sequencer
variable {κ : Type}

/-- An operation that is called, and the signal with which it answers. -/
abbrev Reply (κ : Type) := MethodCall κ × Signal

inductive Part (κ : Type) where
  | entry (e : Entry κ)
  | branch (e : Option (Entry κ))
  | list (es : List (Entry κ))
  /-- A loop that runs its block so many times and is then told to stop. -/
  | rounds (l : Loop κ) (times : Nat)

inductive Trace : Part κ → List (Reply κ) → Prop
  | method {c : MethodCall κ} (hj : c.jump = none) : Trace (.entry (.method c)) [(c, .next)]
  | yes {c : Conditional κ} {t : List (Reply κ)} (h : Trace (.branch c.whenTrue) t) :
    Trace (.entry (.conditional c)) ((c.condition, .yes) :: t)
  | no {c : Conditional κ} {t : List (Reply κ)} (h : Trace (.branch c.whenFalse) t) :
    Trace (.entry (.conditional c)) ((c.condition, .no) :: t)
  | sequence {s : SequenceEntry κ} {t : List (Reply κ)} (hj : s.jump = none)
    (h : Trace (.list s.sequence.entries) t) : Trace (.entry (.sequence s)) t
  | skipped {l : Loop κ} {t : List (Reply κ)} (hj : l.jump = none) (h : Trace (.rounds l 0) t) :
    Trace (.entry (.loop l)) t
  | looped {l : Loop κ} {k : Nat} {t u : List (Reply κ)} (hj : l.jump = none)
    (h : Trace (.rounds l (k + 1)) t) (success : Trace (.branch l.onSuccess) u) :
    Trace (.entry (.loop l)) (t ++ u)
  | missing : Trace (.branch none) []
  | taken {e : Entry κ} {t : List (Reply κ)} (h : Trace (.entry e) t) : Trace (.branch (some e)) t
  | nil : Trace (.list []) []
  | cons {e : Entry κ} {es : List (Entry κ)} {t u : List (Reply κ)} (head : Trace (.entry e) t)
    (tail : Trace (.list es) u) : Trace (.list (e :: es)) (t ++ u)
  | stop {l : Loop κ} {c : MethodCall κ} (hc : l.control = .method c) :
    Trace (.rounds l 0) [(c, .no)]
  | round {l : Loop κ} {c last : MethodCall κ} {es : List (Entry κ)} {k : Nat}
    {t u : List (Reply κ)} (hc : l.control = .method c)
    (hb : l.block.entries = es ++ [.method last]) (hj : last.jump = none)
    (block : Trace (.list es) t) (rest : Trace (.rounds l k) u) :
    Trace (.rounds l (k + 1)) ((c, .yes) :: t ++ (last, .proceed) :: u)

/-- Every yes and no in a trace is what an oracle says of the calls before it. -/
def Agrees (ask : List (Reply κ) → Bool) : List (Reply κ) → List (Reply κ) → Prop
  | _, [] => True
  | h, (c, s) :: t =>
    (s = .yes → ask h = true) ∧ (s = .no → ask h = false) ∧ Agrees ask (h ++ [(c, s)]) t

/-- One more round of a loop leads from one history of calls to another. -/
def Round (ask : List (Reply κ) → Bool) (c last : MethodCall κ) (es : List (Entry κ))
    (h h' : List (Reply κ)) : Prop :=
  ∃ t, Trace (.list es) t ∧ Agrees ask h ((c, .yes) :: t ++ [(last, .proceed)]) ∧
    h' = h ++ ((c, .yes) :: t ++ [(last, .proceed)])

/-- There are no jumps, and however a loop is entered, its control stops it in the end. -/
inductive Structured (ask : List (Reply κ) → Bool) : Part κ → Prop
  | method {c : MethodCall κ} (hj : c.jump = none) : Structured ask (.entry (.method c))
  | conditional {c : Conditional κ} (yes : Structured ask (.branch c.whenTrue))
    (no : Structured ask (.branch c.whenFalse)) : Structured ask (.entry (.conditional c))
  | sequence {s : SequenceEntry κ} (hj : s.jump = none)
    (h : Structured ask (.list s.sequence.entries)) : Structured ask (.entry (.sequence s))
  | loop {l : Loop κ} {c last : MethodCall κ} {es : List (Entry κ)} (hj : l.jump = none)
    (hc : l.control = .method c) (hb : l.block.entries = es ++ [.method last])
    (hl : last.jump = none) (block : Structured ask (.list es))
    (success : Structured ask (.branch l.onSuccess))
    (ends : ¬ ∃ h : Nat → List (Reply κ), ∀ n, Round ask c last es (h n) (h (n + 1))) :
    Structured ask (.entry (.loop l))
  | missing : Structured ask (.branch none)
  | taken {e : Entry κ} (h : Structured ask (.entry e)) : Structured ask (.branch (some e))
  | nil : Structured ask (.list [])
  | cons {e : Entry κ} {es : List (Entry κ)} (head : Structured ask (.entry e))
    (tail : Structured ask (.list es)) : Structured ask (.list (e :: es))

section
variable {ask : List (Reply κ) → Bool}

theorem agrees_append {h t u : List (Reply κ)} :
    Agrees ask h (t ++ u) ↔ Agrees ask h t ∧ Agrees ask (h ++ t) u := by
  induction t generalizing h with
  | nil => simp [Agrees]
  | cons r t ih =>
    obtain ⟨c, s⟩ := r
    simp only [List.cons_append, Agrees, ih, List.append_assoc, List.nil_append, and_assoc]

theorem exists_rounds {l : Loop κ} {c last : MethodCall κ} {es : List (Entry κ)}
    (hc : l.control = .method c) (hb : l.block.entries = es ++ [.method last])
    (hl : last.jump = none) (block : ∀ h, ∃ t, Trace (.list es) t ∧ Agrees ask h t)
    (ends : ¬ ∃ h : Nat → List (Reply κ), ∀ n, Round ask c last es (h n) (h (n + 1)))
    (h : List (Reply κ)) : ∃ k t, Trace (.rounds l k) t ∧ Agrees ask h t := by
  -- No descending chain of rounds: induction on the history, longer ones being smaller.
  have hwf : WellFounded fun h' h => Round ask c last es h h' := by
    rw [wellFounded_iff_isEmpty_descending_chain]
    exact ⟨fun f => ends ⟨f.1, f.2⟩⟩
  induction h using hwf.induction with
  | _ h ih =>
    cases ha : ask h with
    | false => exact ⟨0, _, .stop hc, nofun, fun _ => ha, trivial⟩
    | true =>
      obtain ⟨t, ht, hat⟩ := block (h ++ [(c, .yes)])
      have hr : Agrees ask h ((c, .yes) :: t ++ [(last, .proceed)]) := by
        rw [agrees_append]
        exact ⟨⟨fun _ => ha, nofun, hat⟩, nofun, nofun, trivial⟩
      obtain ⟨k, u, hu, hau⟩ := ih _ ⟨t, ht, hr, rfl⟩
      refine ⟨k + 1, _, .round hc hb hl ht hu, ?_⟩
      have hsplit : (c, .yes) :: t ++ (last, .proceed) :: u =
          ((c, .yes) :: t ++ [(last, .proceed)]) ++ u := by simp
      rw [hsplit, agrees_append]
      exact ⟨hr, hau⟩

theorem Structured.exists_trace {p : Part κ} (hs : Structured ask p) (h : List (Reply κ)) :
    ∃ t, Trace p t ∧ Agrees ask h t := by
  induction hs generalizing h with
  | method hj => exact ⟨_, .method hj, nofun, nofun, trivial⟩
  | @conditional c yes no ihy ihn =>
    cases ha : ask h with
    | true =>
      obtain ⟨t, ht, hat⟩ := ihy (h ++ [(c.condition, .yes)])
      exact ⟨_, .yes ht, fun _ => ha, nofun, hat⟩
    | false =>
      obtain ⟨t, ht, hat⟩ := ihn (h ++ [(c.condition, .no)])
      exact ⟨_, .no ht, nofun, fun _ => ha, hat⟩
  | sequence hj _ ih =>
    obtain ⟨t, ht, hat⟩ := ih h
    exact ⟨t, .sequence hj ht, hat⟩
  | loop hj hc hb hl _ _ ends ihb ihs =>
    obtain ⟨k, t, ht, hat⟩ := exists_rounds hc hb hl ihb ends h
    -- The number of rounds alone decides whether there is a success to follow.
    cases k with
    | zero => exact ⟨t, .skipped hj ht, hat⟩
    | succ k =>
      obtain ⟨u, hu, hau⟩ := ihs (h ++ t)
      exact ⟨t ++ u, .looped hj ht hu, agrees_append.mpr ⟨hat, hau⟩⟩
  | missing => exact ⟨[], .missing, trivial⟩
  | taken _ ih =>
    obtain ⟨t, ht, hat⟩ := ih h
    exact ⟨t, .taken ht, hat⟩
  | nil => exact ⟨[], .nil, trivial⟩
  | cons _ _ ihh iht =>
    obtain ⟨t, ht, hat⟩ := ihh h
    obtain ⟨u, hu, hau⟩ := iht (h ++ t)
    exact ⟨t ++ u, .cons ht hu, agrees_append.mpr ⟨hat, hau⟩⟩

/-- Of two traces that agree with the same answers neither deviates from the other. -/
def Part.Decided (ask : List (Reply κ) → Bool) (t : List (Reply κ)) : Part κ → Prop
  | .rounds l k => ∀ h k' t', Trace (.rounds l k') t' → Agrees ask h t → Agrees ask h t' →
      k = k' ∧ t = t'
  | p => ∀ h t', Trace p t' → Agrees ask h t → Agrees ask h t' → t = t'

theorem decided_round {l : Loop κ} {c last : MethodCall κ} {es : List (Entry κ)} {k : Nat}
    {t u : List (Reply κ)} (hc : l.control = .method c)
    (hb : l.block.entries = es ++ [.method last]) (block : (Part.list es).Decided ask t)
    (rest : (Part.rounds l k).Decided ask u) :
    (Part.rounds l (k + 1)).Decided ask ((c, .yes) :: t ++ (last, .proceed) :: u) := by
  intro h k' t' ht' ha ha'
  cases ht' with
  | stop hc' => exact absurd ((ha.1 rfl).symm.trans (ha'.2.1 rfl)) nofun
  | @round _ c' last' es' k' t' u' hc' hb' _ block' rest' =>
    obtain rfl : c = c' := LoopControl.method.inj (hc.symm.trans hc')
    -- A block splits in one way only, since its last entry is single.
    obtain ⟨rfl, hl⟩ := List.append_inj' (hb.symm.trans hb') rfl
    obtain rfl : last = last' := by simpa using hl
    have hat := agrees_append.mp ha.2.2
    have hat' := agrees_append.mp ha'.2.2
    obtain rfl := block _ _ block' hat.1 hat'.1
    obtain ⟨rfl, rfl⟩ := rest _ _ _ rest' hat.2.2.2 hat'.2.2.2
    exact ⟨rfl, rfl⟩

theorem Trace.decided {p : Part κ} {t : List (Reply κ)} (ht : Trace p t) : p.Decided ask t := by
  induction ht with
  | method hj =>
    intro h t' ht' ha ha'
    cases ht'
    rfl
  | yes _ ih =>
    intro h t' ht' ha ha'
    cases ht' with
    | yes ht' => rw [ih _ _ ht' ha.2.2 ha'.2.2]
    | no ht' => exact absurd ((ha.1 rfl).symm.trans (ha'.2.1 rfl)) nofun
  | no _ ih =>
    intro h t' ht' ha ha'
    cases ht' with
    | yes ht' => exact absurd ((ha'.1 rfl).symm.trans (ha.2.1 rfl)) nofun
    | no ht' => rw [ih _ _ ht' ha.2.2 ha'.2.2]
  | sequence hj _ ih =>
    intro h t' ht' ha ha'
    cases ht' with
    | sequence _ ht' => exact ih _ _ ht' ha ha'
  | skipped hj _ ih =>
    intro h t' ht' ha ha'
    cases ht' with
    | skipped _ ht' => exact (ih _ _ _ ht' ha ha').2
    | looped _ ht' => exact absurd (ih _ _ _ ht' ha (agrees_append.mp ha').1).1 nofun
  | looped hj _ _ ih ihs =>
    intro h t' ht' ha ha'
    have hat := agrees_append.mp ha
    cases ht' with
    | skipped _ ht' => exact absurd (ih _ _ _ ht' hat.1 ha').1 nofun
    | looped _ ht' hu' =>
      have hat' := agrees_append.mp ha'
      obtain ⟨-, rfl⟩ := ih _ _ _ ht' hat.1 hat'.1
      rw [ihs _ _ hu' hat.2 hat'.2]
  | missing =>
    intro h t' ht' ha ha'
    cases ht'
    rfl
  | taken _ ih =>
    intro h t' ht' ha ha'
    cases ht' with
    | taken ht' => exact ih _ _ ht' ha ha'
  | nil =>
    intro h t' ht' ha ha'
    cases ht'
    rfl
  | cons _ _ ihh iht =>
    intro h t' ht' ha ha'
    have hat := agrees_append.mp ha
    cases ht' with
    | cons hh' ht' =>
      have hat' := agrees_append.mp ha'
      obtain rfl := ihh _ _ hh' hat.1 hat'.1
      rw [iht _ _ ht' hat.2 hat'.2]
  | stop hc =>
    intro h k' t' ht' ha ha'
    cases ht' with
    | stop hc' =>
      obtain rfl := LoopControl.method.inj (hc.symm.trans hc')
      exact ⟨rfl, rfl⟩
    | round => exact absurd ((ha'.1 rfl).symm.trans (ha.2.1 rfl)) nofun
  | round hc hb hj _ _ ihb ihr => exact decided_round hc hb ihb ihr

/-- The answers decide what a structured program does. -/
theorem Structured.existsUnique_trace {es : List (Entry κ)} (hs : Structured ask (.list es)) :
    ∃! t, Trace (.list es) t ∧ Agrees ask [] t := by
  obtain ⟨t, ht, hat⟩ := hs.exists_trace []
  exact ⟨t, ⟨ht, hat⟩, fun u ⟨hu, hau⟩ => hu.decided [] t ht hau hat⟩

end
end Sequencer
