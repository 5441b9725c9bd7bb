import Sequencer.Proofs.Program.Built
import Sequencer.Proofs.Program.Labels

/-! The canonical form of entries. Normalization cleans every label and every jump, takes both off
the operations that only answer a question, and refuses what has no form: blanks where a label or a
message is needed, a conditional without branches, a body that could not stand alone. -/

namespace Sequencer
variable {κ : Type}

def Label.Cleaned (label : Option String) : Prop := ∀ l, label = some l → Label.Clean l

theorem Label.cleaned_clean? (text : Option String) : Label.Cleaned (Label.clean? text) := by
  intro l h
  obtain ⟨t, -, ht⟩ := Option.bind_eq_some_iff.mp h
  exact Label.clean_of_clean ht

theorem Label.cleaned_none : Label.Cleaned none := fun _ h => absurd h.symm (Option.some_ne_none _)

structure MethodCall.Cleaned (call : MethodCall κ) : Prop where
  label : Label.Cleaned call.label
  jump : Label.Cleaned call.jump

/-- Nothing leads to the call, and it leads nowhere: an operation that is asked for an answer. -/
structure MethodCall.Bare (call : MethodCall κ) : Prop where
  label : call.label = none
  jump : call.jump = none

def ErrorValue.Cleaned : ErrorValue κ → Prop
  | .message text => text ≠ "" ∧ Text.trim text = text
  | .method call => call.Cleaned

namespace Entry

/-- The form that normalization gives to an entry, apart from those inside it. -/
inductive Canonical : Entry κ → Prop
  | method {call : MethodCall κ} (h : call.Cleaned) : Canonical (.method call)
  | conditional {c : Conditional κ} (label : Label.Cleaned c.label) (condition : c.condition.Bare)
    (branch : c.whenTrue.isSome = true ∨ c.whenFalse.isSome = true)
    (jump : (Entry.conditional c).jump = none) : Canonical (.conditional c)
  | loop {l : Loop κ} (label : Label.Cleaned l.label) (jump : Label.Cleaned l.jump)
    (control : ∀ call, l.control = .method call → call.Bare) : Canonical (.loop l)
  | goto {g : GotoEntry κ} (label : Label.Cleaned g.label) (jump : Label.Cleaned g.jump)
    (target : ∀ l, g.target = .label l → Label.Clean l) : Canonical (.goto g)
  | error {x : ErrorEntry κ} (label : Label.Cleaned x.label) (jump : Label.Cleaned x.jump)
    (error : x.error.Cleaned)
    (quiet : (x.jump.isSome = true ∨ ∃ call, x.error = .method call) → x.breakOnEmit = false) :
    Canonical (.error x)
  | sequence {n : SequenceEntry κ} (label : Label.Cleaned n.label) (jump : Label.Cleaned n.jump) :
    Canonical (.sequence n)

/-- The second entry is a branch or a handler of the first, or an entry of a sequence that it
runs. -/
inductive Inside : Entry κ → Entry κ → Prop
  | offered {e r : Entry κ} (h : e.Offers r) : Inside e r
  | run {e r : Entry κ} {s : Sequence κ} (h : e.Runs s) (hr : r ∈ s.entries) : Inside e r

/-- The entry itself, or one inside it at any depth. -/
abbrev Contains : Entry κ → Entry κ → Prop := Relation.ReflTransGen Inside

def AllCanonical (e : Entry κ) : Prop := ∀ r, e.Contains r → r.Canonical

/-- An entry may be the whole body of a loop: no error, and no goto with a jump. -/
structure StandsAlone (e : Entry κ) : Prop where
  not_error : ∀ x, e ≠ .error x
  not_jump : ∀ g, e = .goto g → g.jump = none

section
variable {e : Entry κ}

theorem allCanonical_of (h : e.Canonical) (ho : ∀ r, e.Offers r → r.AllCanonical)
    (hr : ∀ s, e.Runs s → ∀ r ∈ s.entries, r.AllCanonical) : e.AllCanonical := by
  intro r hc
  rcases hc.cases_head with rfl | ⟨b, hb, hc⟩
  · exact h
  · cases hb with
    | offered hb => exact ho b hb r hc
    | run hs hb => exact hr _ hs b hb r hc

theorem allCanonical_method {call : MethodCall κ} (h : call.Cleaned) :
    (Entry.method call).AllCanonical :=
  allCanonical_of (.method h) nofun nofun

theorem allCanonical_sequence {n : SequenceEntry κ} (label : Label.Cleaned n.label)
    (jump : Label.Cleaned n.jump) (h : ∀ r ∈ n.sequence.entries, r.AllCanonical) :
    (Entry.sequence n).AllCanonical := by
  refine allCanonical_of (.sequence label jump) nofun fun s hs => ?_
  cases hs
  exact h

end
end Entry

/-! ### The parts of an entry -/

namespace MethodCall
variable {registry : Registry κ} {call : MethodCall κ}

theorem bare_of_ofName {name : String} (h : ofName registry name = .ok call) : call.Bare := by
  unfold ofName at h
  simp only at h
  split at h
  · exact absurd h (by simp)
  · split at h
    · obtain rfl := Except.ok.inj h
      exact ⟨rfl, rfl⟩
    · exact absurd h (by simp)

theorem Bare.cleaned (h : call.Bare) : call.Cleaned :=
  ⟨h.label ▸ Label.cleaned_none, h.jump ▸ Label.cleaned_none⟩

theorem cleaned_of_ofClauses {c : Clauses κ} (h : ofClauses registry c = .ok call) :
    call.Cleaned := by
  rw [ofClauses] at h
  split at h
  · exact absurd h (by simp)
  · obtain ⟨inner, -, rfl⟩ := Verdict.ok_of_map h
    exact ⟨Label.cleaned_clean? _, Label.cleaned_clean? _⟩

/-- What nested objects give is replaced by what the outermost gives, so that no induction is
needed. -/
theorem cleaned_of_ofDeclaration {d : Declaration κ} (h : ofDeclaration registry d = .ok call) :
    call.Cleaned := by
  unfold ofDeclaration at h
  split at h
  · obtain rfl := Except.ok.inj h
    exact ⟨Label.cleaned_none, Label.cleaned_none⟩
  · exact (bare_of_ofName h).cleaned
  · exact cleaned_of_ofClauses h
  · exact absurd h (by simp)
  · exact (bare_of_ofName h).cleaned
  · exact cleaned_of_ofClauses h
  · exact absurd h (by simp)

theorem bare_of_ofControl {key : String} {d : Declaration κ}
    (h : (ofControl registry key d).result = .ok call) : call.Bare := by
  unfold ofControl at h
  split at h
  · exact absurd h (by simp [Verdict.refuse])
  · split at h
    next hjump =>
      obtain rfl := Except.ok.inj h
      exact ⟨rfl, hjump⟩
    next =>
      obtain rfl := Except.ok.inj h
      exact ⟨rfl, rfl⟩

end MethodCall

theorem LoopControl.bare_of_ofClause {registry : Registry κ} {x : LoopClause κ}
    {call : MethodCall κ} (h : (ofClause registry x).result = .ok (.method call)) : call.Bare := by
  unfold ofClause at h
  split at h
  · exact absurd (Except.ok.inj h) (by simp)
  · exact absurd h (by simp [Verdict.refuse])
  · obtain ⟨call', hcall, heq⟩ := Verdict.ok_of_map h
    obtain rfl := LoopControl.method.inj heq
    exact MethodCall.bare_of_ofControl hcall

theorem GotoTarget.clean_of_ofClause {registry : Registry κ} {x : GotoClause κ} {l : String}
    (h : ofClause registry x = .ok (.label l)) : Label.Clean l := by
  unfold ofClause at h
  split at h
  · split at h
    next hl =>
      obtain rfl := GotoTarget.label.inj (Except.ok.inj h)
      exact Label.clean_of_clean hl
    next => exact absurd h (by simp)
  · exact absurd (Except.ok.inj h) (by simp)
  · simp only at h
    repeat' split at h
    all_goals exact absurd h (by simp)

theorem ErrorValue.cleaned_of_ofClause {registry : Registry κ} {x : ErrorClause κ}
    {v : ErrorValue κ} (h : ofClause registry x = .ok v) : v.Cleaned := by
  unfold ofClause at h
  split at h
  · simp only at h
    split at h
    next => exact absurd h (by simp)
    next hne =>
      obtain rfl := Except.ok.inj h
      exact ⟨by simpa using hne, Text.trim_trim _⟩
  next d =>
    cases hcall : MethodCall.ofDeclaration registry d with
    | error e =>
      rw [hcall] at h
      exact absurd h (by simp [Except.map, Except.mapError])
    | ok call =>
      rw [hcall] at h
      obtain rfl := Except.ok.inj h
      exact MethodCall.cleaned_of_ofDeclaration hcall

theorem ErrorEntry.quiet_ofValue {c : Clauses κ} {v : ErrorValue κ}
    (h : (ofValue c v).jump.isSome = true ∨ ∃ call, (ofValue c v).error = .method call) :
    (ofValue c v).breakOnEmit = false := by
  rcases h with h | ⟨call, h⟩
  · have hjump : (Label.clean? c.jump).isNone = false := by
      rw [← Option.not_isSome]
      exact congrArg not h
    simp only [ofValue, hjump, Bool.and_false, Bool.false_and]
  · obtain rfl : v = .method call := h
    simp only [ofValue, Bool.and_false]

theorem Scope.body_cases {scope : Scope κ} {e : Entry κ} {s : Sequence κ}
    (h : scope.body e = .ok s) :
    (∃ label, e = .sequence ⟨label, s, none⟩) ∨ s = scope.sequence.push e ∧ e.StandsAlone := by
  unfold Scope.body at h
  split at h
  · exact absurd h (by simp)
  · exact absurd h (by simp)
  · obtain rfl := Except.ok.inj h
    exact .inl ⟨_, rfl⟩
  next herror hjump _ =>
    obtain rfl := Except.ok.inj h
    refine .inr ⟨rfl, herror, fun g hg => ?_⟩
    obtain ⟨label, target, jump⟩ := g
    cases jump with
    | none => rfl
    | some j => exact absurd hg (hjump label target j)

theorem Scope.canonical_cases (scope : Scope κ) :
    scope.Cases Entry.AllCanonical fun s => ∀ e ∈ s.entries, e.AllCanonical where
  operation _ := Entry.allCanonical_method ⟨Label.cleaned_none, Label.cleaned_none⟩
  named h := Entry.allCanonical_method (MethodCall.bare_of_ofName h).cleaned
  method h := Entry.allCanonical_method (MethodCall.cleaned_of_ofClauses h)
  error h := by
    exact Entry.allCanonical_of (.error (Label.cleaned_clean? _) (Label.cleaned_clean? _)
      (ErrorValue.cleaned_of_ofClause h) ErrorEntry.quiet_ofValue) nofun nofun
  goto h _ _ := by
    refine Entry.allCanonical_of (.goto (Label.cleaned_clean? _) (Label.cleaned_clean? _)
      fun l hl => ?_) nofun nofun
    obtain rfl : _ = GotoTarget.label l := hl
    exact GotoTarget.clean_of_ofClause h
  sequence h _ _ :=
    Entry.allCanonical_sequence (Label.cleaned_clean? _) (Label.cleaned_clean? _) h
  conditional h ht hf hb _ := by
    refine Entry.allCanonical_of (.conditional (Label.cleaned_clean? _)
      (MethodCall.bare_of_ofControl h) hb rfl) (fun r hr => ?_) nofun
    cases hr with
    | whenTrue hr => exact ht r hr
    | whenFalse hr => exact hf r hr
  loop h hb hs he _ _ := by
    refine Entry.allCanonical_of (.loop (Label.cleaned_clean? _) (Label.cleaned_clean? _)
      fun call hcall => ?_) (fun r hr => ?_) fun t ht => ?_
    · obtain rfl : _ = LoopControl.method call := hcall
      exact LoopControl.bare_of_ofClause h
    · cases hr with
      | onSuccess hr => exact hs r hr
      | onError hr => exact he r hr
    · cases ht
      exact hb
  body he h := by
    rcases Scope.body_cases h with ⟨label, rfl⟩ | ⟨rfl, -⟩
    · exact fun r hr c hc => he c (.head (.run (.nested _) hr) hc)
    · exact List.forall_mem_singleton.mpr he
  empty := List.forall_mem_nil _
  push hs he := List.forall_mem_append.mpr ⟨hs, List.forall_mem_singleton.mpr he⟩

theorem Sequence.Built.allCanonical {s : Sequence κ} (h : s.Built) :
    ∀ e ∈ s.entries, e.AllCanonical :=
  h.of_cases Scope.canonical_cases fun _ _ hs _ he => he ▸ hs

/-! ### Accepted declarations -/

theorem Scope.block_cases {scope : Scope κ} {d : Option (Declaration κ)} {s : Sequence κ}
    (h : (scope.block d).result = .ok s) :
    ∃ b x, d = some b ∧ (b.normalize scope).result = .ok x ∧
      ((∃ label, x = .sequence ⟨label, s, none⟩) ∨ s = scope.sequence.push x ∧ x.StandsAlone) := by
  rw [Scope.block.eq_def] at h
  split at h
  · exact absurd h (by simp [Verdict.refuse])
  next b =>
    obtain ⟨x, hx, hs⟩ := Verdict.ok_of_andThen h
    exact ⟨b, x, rfl, Verdict.ok_of_inField hx, Scope.body_cases (Verdict.ok_of_ofExcept hs)⟩

theorem Clauses.conditional_of_choice {scope : Scope κ} {c : Clauses κ} {condition : Declaration κ}
    {e : Entry κ} (h : (c.choice scope condition).result = .ok e) : ∃ x, e = .conditional x := by
  rw [Clauses.choice] at h
  obtain ⟨call, -, h⟩ := Verdict.ok_of_andThen h
  obtain ⟨whenTrue, -, h⟩ := Verdict.ok_of_andThen h
  obtain ⟨whenFalse, -, h⟩ := Verdict.ok_of_andThen h
  split at h
  · exact absurd h (by simp [Verdict.refuse])
  · exact ⟨_, (Except.ok.inj h).symm⟩

theorem Clauses.loop_of_repetition {scope : Scope κ} {c : Clauses κ} {control : LoopClause κ}
    {e : Entry κ} (h : (c.repetition scope control).result = .ok e) :
    ∃ l, e = .loop l ∧ (scope.block c.block).result = .ok l.block := by
  rw [Clauses.repetition] at h
  obtain ⟨control, -, h⟩ := Verdict.ok_of_andThen h
  obtain ⟨block, hb, h⟩ := Verdict.ok_of_andThen h
  obtain ⟨onSuccess, -, h⟩ := Verdict.ok_of_andThen h
  obtain ⟨onError, -, h⟩ := Verdict.ok_of_andThen h
  exact ⟨_, (Except.ok.inj h).symm, hb⟩

theorem Clauses.block_of_normalize {scope : Scope κ} {c : Clauses κ} {l : Loop κ}
    (h : (c.normalize scope).result = .ok (.loop l)) :
    (scope.block c.block).result = .ok l.block := by
  -- No other key than that of a loop makes one.
  rw [Clauses.normalize] at h
  split at h
  · obtain ⟨v, -, hv⟩ := Verdict.ok_of_map (Verdict.ok_of_ofExcept h)
    exact absurd hv (by simp)
  split at h
  · obtain ⟨s, -, hs⟩ := Verdict.ok_of_map h
    exact absurd hs (by simp)
  split at h
  · obtain ⟨call, -, hcall⟩ := Verdict.ok_of_map (Verdict.ok_of_ofExcept h)
    exact absurd hcall (by simp)
  split at h
  next d _ =>
    have hchoice : (c.choice scope d).result = .ok (.loop l) := by
      simp only at h
      split at h <;> exact h
    obtain ⟨x, hx⟩ := conditional_of_choice hchoice
    exact absurd hx (by simp)
  split at h
  · obtain ⟨l', heq, hb⟩ := loop_of_repetition h
    obtain rfl := Entry.loop.inj heq
    exact hb
  split at h
  · obtain ⟨target, -, ht⟩ := Verdict.ok_of_map (Verdict.ok_of_ofExcept h)
    exact absurd ht (by simp)
  · exact absurd h (by simp [Verdict.refuse])

/-- A declaration that is accepted adds one entry, and this entry and all inside it are in canonical
form, with the ready sequences that the declaration holds being built themselves. What a body was
made from cannot be told from the body, so that what may be wrapped into one is said of the clauses
of any loop: an entry that is no sequence without a jump stands alone in the body made from it. -/
theorem Sequence.canonical_of_tryAdd {s t : Sequence κ} {d : Declaration κ}
    (hd : ∀ r, d.Holds r → r.Built) (h : (s.tryAdd d).result = .ok t) :
    (∃ e, t = s.push e ∧ ∀ r, e.Contains r → r.Canonical) ∧
    ∀ (c : Clauses κ) (l : Loop κ), (c.normalize s.scope).result = .ok (.loop l) →
      ∃ b x, c.block = some b ∧ (b.normalize s.scope).result = .ok x ∧
        ((∃ label, x = .sequence ⟨label, l.block, none⟩) ∨
          l.block = s.scope.sequence.push x ∧ x.StandsAlone) := by
  obtain ⟨e, he, rfl⟩ := Verdict.ok_of_map h
  refine ⟨⟨e, rfl, ?_⟩, fun c l hl => Scope.block_cases (Clauses.block_of_normalize hl)⟩
  exact (Scope.canonical_cases s.scope).declaration d (fun r hr => (hd r hr).allCanonical) he

def waiting : Clauses Unit where
  label := some " Wait "
  control := some (.method (.json (.object
    [("jump", .string "Out"), ("method", .string " poll ")])))
  block := some (.json (.object [("goto", .string "TOP ")]))
  onError := some (.entry (.sequence (.withRegistry {})))

def polling : Sequence Unit := .withRegistry ⟨⟨[("poll", ())]⟩, {}⟩

def wait : Loop Unit where
  label := some "wait"
  control := .method { operation := () }
  block := polling.push (.goto ⟨none, .label "top", none⟩)
  onSuccess := none
  onError := some (.handler (.sequence ⟨none, .withRegistry {}, none⟩))
  jump := none

theorem normalize_waiting : (waiting.normalize polling.scope).result = .ok (.loop wait) := by
  have hcontrol :
      (Clauses.ofMembers [("jump", .string "Out"), ("method", .string " poll ")] : Clauses Unit) =
      { method := some (.json (.string " poll ")), jump := some "Out" } := rfl
  have hblock : (Clauses.ofMembers [("goto", .string "TOP ")] : Clauses Unit) =
      { goto := some (.label "TOP ") } := rfl
  simp only [waiting, Clauses.normalize, Clauses.repetition, LoopControl.ofClause, Scope.block,
    Scope.branch, Scope.failure, Declaration.normalize, MethodCall.ofControl,
    MethodCall.ofDeclaration, MethodCall.ofClauses, hcontrol, hblock]
  rfl

theorem built_waiting : ∀ r, (Declaration.object waiting).Holds r → r.Built := by
  intro r h
  cases h with
  | onError h hd =>
    obtain rfl := FailureClause.entry.inj (Option.some.inj h)
    cases hd
    exact .empty {}
  | control h hd =>
    obtain rfl := LoopClause.method.inj (Option.some.inj h)
    cases hd
  | block h hd =>
    obtain rfl := Option.some.inj h
    cases hd
  | method h hd | condition h hd | whenTrue h hd | whenFalse h hd | onSuccess h hd | error h hd
  | sequence h hd => exact absurd h (by simp [waiting])

/-- The label comes out clean, the jump of the control is gone, and the goto is wrapped. -/
theorem canonical_waiting :
    (∀ r, (Declaration.object waiting).Holds r → r.Built) ∧
    (polling.tryAdd (.object waiting)).result = .ok (polling.push (.loop wait)) ∧
    (∃ e, polling.push (.loop wait) = polling.push e ∧ ∀ r, e.Contains r → r.Canonical) ∧
    ∃ b x, waiting.block = some b ∧ (b.normalize polling.scope).result = .ok x ∧
      ((∃ label, x = .sequence ⟨label, wait.block, none⟩) ∨
        wait.block = polling.scope.sequence.push x ∧ x.StandsAlone) := by
  have hadd : (polling.tryAdd (.object waiting)).result = .ok (polling.push (.loop wait)) := by
    simp only [Sequence.tryAdd, Verdict.map, Declaration.normalize, normalize_waiting]
    rfl
  obtain ⟨hentry, hblock⟩ := Sequence.canonical_of_tryAdd built_waiting hadd
  exact ⟨built_waiting, hadd, hentry, hblock waiting wait normalize_waiting⟩

end Sequencer
