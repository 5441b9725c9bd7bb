import Sequencer.Declaration.Normal

/-! Induction over normalization. What holds of the entries of every kind, given that it holds of
what they are made of, holds of all that normalization makes, wherever it puts it; ready sequences
that a declaration holds are taken over as they are. -/

namespace Sequencer
variable {κ : Type}

/-- The declaration holds the sequence, ready made, in one of its clauses. -/
inductive Declaration.Holds : Declaration κ → Sequence κ → Prop
  | built (s : Sequence κ) : Holds (.sequence s) s
  | method {c : Clauses κ} {d : Declaration κ} {s : Sequence κ} (h : c.method = some d)
    (hd : Holds d s) : Holds (.object c) s
  | condition {c : Clauses κ} {d : Declaration κ} {s : Sequence κ} (h : c.condition = some d)
    (hd : Holds d s) : Holds (.object c) s
  | whenTrue {c : Clauses κ} {d : Declaration κ} {s : Sequence κ} (h : c.whenTrue = some d)
    (hd : Holds d s) : Holds (.object c) s
  | whenFalse {c : Clauses κ} {d : Declaration κ} {s : Sequence κ} (h : c.whenFalse = some d)
    (hd : Holds d s) : Holds (.object c) s
  | control {c : Clauses κ} {d : Declaration κ} {s : Sequence κ} (h : c.control = some (.method d))
    (hd : Holds d s) : Holds (.object c) s
  | block {c : Clauses κ} {d : Declaration κ} {s : Sequence κ} (h : c.block = some d)
    (hd : Holds d s) : Holds (.object c) s
  | onSuccess {c : Clauses κ} {d : Declaration κ} {s : Sequence κ} (h : c.onSuccess = some d)
    (hd : Holds d s) : Holds (.object c) s
  | onError {c : Clauses κ} {d : Declaration κ} {s : Sequence κ} (h : c.onError = some (.entry d))
    (hd : Holds d s) : Holds (.object c) s
  | error {c : Clauses κ} {d : Declaration κ} {s : Sequence κ} (h : c.error = some (.method d))
    (hd : Holds d s) : Holds (.object c) s
  | sequence {c : Clauses κ} {d : Declaration κ} {s : Sequence κ} (h : c.sequence = some d)
    (hd : Holds d s) : Holds (.object c) s

theorem Declaration.not_holds_json {v : Json} {s : Sequence κ} :
    ¬ (Declaration.json v).Holds s := by
  intro h
  cases h

theorem Declaration.not_holds_operation {k : κ} {s : Sequence κ} :
    ¬ (Declaration.operation k).Holds s := by
  intro h
  cases h

theorem Clauses.not_holds_ofMembers {ms : List (String × Json)} {s : Sequence κ} :
    ¬ (Declaration.object (Clauses.ofMembers ms)).Holds s := by
  have json {d : Declaration κ} (h : ∃ v, d = .json v) : ¬ d.Holds s := by
    obtain ⟨v, rfl⟩ := h
    exact Declaration.not_holds_json
  have read {v : Option Json} {d : Declaration κ} (h : v.map .json = some d) :
      ∃ v, d = .json v := by
    obtain ⟨w, -, rfl⟩ := Option.map_eq_some_iff.mp h
    exact ⟨w, rfl⟩
  intro h
  cases h with
  | method h hd | condition h hd | whenTrue h hd | whenFalse h hd | block h hd | onSuccess h hd
  | sequence h hd => exact json (read h) hd
  | control h hd =>
    obtain ⟨w, -, hw⟩ := Option.map_eq_some_iff.mp h
    refine json ⟨w, ?_⟩ hd
    cases w <;> simp_all [LoopClause.ofJson]
  | onError h hd =>
    obtain ⟨w, -, hw⟩ := Option.map_eq_some_iff.mp h
    refine json ⟨w, ?_⟩ hd
    cases w <;> simp_all [FailureClause.ofJson]
  | error h hd =>
    obtain ⟨w, -, hw⟩ := Option.map_eq_some_iff.mp h
    refine json ⟨w, ?_⟩ hd
    cases w <;> simp_all [ErrorClause.ofJson]

/-- The cases of a proof by induction over normalization. One property is shown of entries and
another of the sequences that they run. -/
structure Scope.Cases (scope : Scope κ) (P : Entry κ → Prop) (Q : Sequence κ → Prop) : Prop where
  operation (handle : κ) : P (.method { operation := handle })
  named {name : String} {call : MethodCall κ}
    (h : MethodCall.ofName scope.registry name = .ok call) : P (.method call)
  method {c : Clauses κ} {call : MethodCall κ}
    (h : MethodCall.ofClauses scope.registry c = .ok call) : P (.method call)
  error {c : Clauses κ} {x : ErrorClause κ} {v : ErrorValue κ}
    (h : ErrorValue.ofClause scope.registry x = .ok v) : P (.error (.ofValue c v))
  goto {x : GotoClause κ} {target : GotoTarget κ}
    (h : GotoTarget.ofClause scope.registry x = .ok target) (label jump : Option String) :
    P (.goto ⟨Label.clean? label, target, Label.clean? jump⟩)
  sequence {s : Sequence κ} (h : Q s) (label jump : Option String) :
    P (.sequence ⟨Label.clean? label, s, Label.clean? jump⟩)
  conditional {d : Declaration κ} {call : MethodCall κ} {whenTrue whenFalse : Option (Entry κ)}
    (h : (MethodCall.ofControl scope.registry "if" d).result = .ok call)
    (ht : ∀ e, whenTrue = some e → P e) (hf : ∀ e, whenFalse = some e → P e)
    (hb : whenTrue.isSome = true ∨ whenFalse.isSome = true) (label : Option String) :
    P (.conditional ⟨Label.clean? label, call, whenTrue, whenFalse⟩)
  loop {x : LoopClause κ} {control : LoopControl κ} {block : Sequence κ}
    {onSuccess : Option (Entry κ)} {onError : Option (LoopFailure κ)}
    (h : (LoopControl.ofClause scope.registry x).result = .ok control) (hb : Q block)
    (hs : ∀ e, onSuccess = some e → P e) (he : ∀ e, onError = some (.handler e) → P e)
    (label jump : Option String) :
    P (.loop ⟨Label.clean? label, control, block, onSuccess, onError, Label.clean? jump⟩)
  body {e : Entry κ} {s : Sequence κ} (he : P e) (h : scope.body e = .ok s) : Q s
  empty : Q scope.sequence
  push {s : Sequence κ} {e : Entry κ} (hs : Q s) (he : P e) : Q (s.push e)

namespace Scope.Cases
variable {scope : Scope κ} {P : Entry κ → Prop} {Q : Sequence κ → Prop}

mutual

theorem declaration (h : scope.Cases P Q) (d : Declaration κ) (hd : ∀ t, d.Holds t → Q t)
    {e : Entry κ} (he : (d.normalize scope).result = .ok e) : P e := by
  match d, hd, he with
  | .operation handle, _, he =>
    rw [Declaration.normalize] at he
    obtain rfl := Except.ok.inj he
    exact h.operation handle
  | .named n, _, he =>
    rw [Declaration.normalize] at he
    obtain ⟨c, hc, rfl⟩ := Verdict.ok_of_map (Verdict.ok_of_ofExcept he)
    exact h.named hc
  | .object c, hd, he =>
    rw [Declaration.normalize] at he
    exact clauses h c hd he
  | .sequence s, hd, he =>
    rw [Declaration.normalize] at he
    obtain rfl := Except.ok.inj he
    exact h.sequence (hd s (.built s)) none none
  | .json (.string n), _, he =>
    rw [Declaration.normalize] at he
    obtain ⟨c, hc, rfl⟩ := Verdict.ok_of_map (Verdict.ok_of_ofExcept he)
    exact h.named hc
  | .json (.array items), _, he =>
    have hs := fill h h.empty items
    rw [Declaration.normalize] at he
    generalize scope.fill scope.sequence items = filled at hs he
    obtain rfl := Except.ok.inj he
    exact h.sequence hs none none
  | .json (.object ms), _, he =>
    rw [Declaration.normalize] at he
    exact clauses h (.ofMembers ms) (fun t ht => absurd ht Clauses.not_holds_ofMembers) he
  | .json .null, _, he | .json (.bool _), _, he | .json (.number _), _, he =>
    rw [Declaration.normalize] at he
    · exact absurd he nofun
    all_goals exact nofun
termination_by 4 * d.depth
decreasing_by
  · simp only [Declaration.depth]; omega
  · simp only [Declaration.depth, Json.array.sizeOf_spec]; omega
  · have := Clauses.depth_ofMembers (κ := κ) ms
    simp only [Declaration.depth, Json.object.sizeOf_spec]; omega

theorem fill (h : scope.Cases P Q) {s : Sequence κ} (hs : Q s) (vs : List Json) :
    Q (scope.fill s vs).1 := by
  match vs with
  | [] =>
    rw [Scope.fill]
    exact hs
  | v :: vs =>
    rw [Scope.fill]
    have first : Q (s.pushVerdict ((Declaration.json v).normalize scope)).1 := by
      unfold Sequence.pushVerdict
      cases he : ((Declaration.json v).normalize scope).result with
      | error e => exact hs
      | ok e =>
        exact h.push hs
          (declaration h (.json v) (fun _ ht => absurd ht Declaration.not_holds_json) he)
    exact fill h first vs
termination_by 8 * sizeOf vs
decreasing_by
  · simp only [Declaration.depth, List.cons.sizeOf_spec]; omega
  · simp only [List.cons.sizeOf_spec]; omega

theorem clauses (h : scope.Cases P Q) (c : Clauses κ)
    (hd : ∀ t, (Declaration.object c).Holds t → Q t) {e : Entry κ}
    (he : (c.normalize scope).result = .ok e) : P e := by
  rw [Clauses.normalize] at he
  cases hc : c.error with
  | some x =>
    simp only [hc] at he
    obtain ⟨v, hv, rfl⟩ := Verdict.ok_of_map (Verdict.ok_of_ofExcept he)
    exact h.error hv
  | none =>
    simp only [hc] at he
    split at he
    next d hs =>
      obtain ⟨s, hn, rfl⟩ := Verdict.ok_of_map he
      have hd (t : Sequence κ) (ht : d.Holds t) : Q t := hd t (.sequence hs ht)
      have hlt : d.depth ≤ c.depth := by simpa only [hs, depthOf] using c.depthOf_sequence_le
      exact h.sequence (nested h d hd hn) c.label c.jump
    next hs =>
      split at he
      next =>
        obtain ⟨call, hcall, rfl⟩ := Verdict.ok_of_map (Verdict.ok_of_ofExcept he)
        exact h.method hcall
      next =>
        cases hi : c.condition with
        | some d =>
          simp only [hi] at he
          have hchoice : (c.choice scope d).result = .ok e := by split at he <;> exact he
          exact choice h c hd hchoice
        | none =>
          simp only [hi] at he
          cases hl : c.control with
          | some control =>
            simp only [hl] at he
            exact repetition h c hd he
          | none =>
            simp only [hl] at he
            cases hg : c.goto with
            | some target =>
              simp only [hg] at he
              obtain ⟨v, hv, rfl⟩ := Verdict.ok_of_map (Verdict.ok_of_ofExcept he)
              exact h.goto hv c.label c.jump
            | none =>
              simp only [hg] at he
              exact absurd he nofun
termination_by 4 * c.depth + 3

theorem nested (h : scope.Cases P Q) (d : Declaration κ) (hd : ∀ t, d.Holds t → Q t)
    {s : Sequence κ} (hs : (d.nested scope).result = .ok s) : Q s := by
  match d, hd, hs with
  | .sequence s', hd, hs =>
    rw [Declaration.nested] at hs
    obtain rfl := Except.ok.inj hs
    exact hd s' (.built s')
  | .json (.array items), _, hs =>
    have hf := fill h h.empty items
    rw [Declaration.nested] at hs
    generalize scope.fill scope.sequence items = filled at hf hs
    obtain rfl := Except.ok.inj hs
    exact hf
  | .operation _, _, hs | .named _, _, hs | .object _, _, hs | .json .null, _, hs
  | .json (.bool _), _, hs | .json (.number _), _, hs | .json (.string _), _, hs
  | .json (.object _), _, hs =>
    rw [Declaration.nested] at hs
    · exact absurd hs nofun
    all_goals exact nofun
termination_by 4 * d.depth
decreasing_by simp only [Declaration.depth, Json.array.sizeOf_spec]; omega

theorem choice (h : scope.Cases P Q) (c : Clauses κ)
    (hd : ∀ t, (Declaration.object c).Holds t → Q t) {condition : Declaration κ}
    {e : Entry κ} (he : (c.choice scope condition).result = .ok e) : P e := by
  rw [Clauses.choice] at he
  obtain ⟨call, hcall, he⟩ := Verdict.ok_of_andThen he
  obtain ⟨whenTrue, ht, he⟩ := Verdict.ok_of_andThen he
  obtain ⟨whenFalse, hf, he⟩ := Verdict.ok_of_andThen he
  split at he
  next => exact absurd he nofun
  next hb =>
    obtain rfl := Except.ok.inj he
    refine h.conditional hcall (fun e hw => ?_) (fun e hw => ?_) ?_ c.label
    · obtain rfl : whenTrue = some e := hw
      exact branch h c.whenTrue (fun d hc t ht => hd t (.whenTrue hc ht)) ht
    · obtain rfl : whenFalse = some e := hw
      exact branch h c.whenFalse (fun d hc t ht => hd t (.whenFalse hc ht)) hf
    · cases whenTrue <;> cases whenFalse <;> simp_all
termination_by 4 * c.depth + 2
decreasing_by
  · have := c.depthOf_whenTrue_le; omega
  · have := c.depthOf_whenFalse_le; omega

theorem repetition (h : scope.Cases P Q) (c : Clauses κ)
    (hd : ∀ t, (Declaration.object c).Holds t → Q t) {control : LoopClause κ}
    {e : Entry κ} (he : (c.repetition scope control).result = .ok e) : P e := by
  rw [Clauses.repetition] at he
  obtain ⟨control, hcontrol, he⟩ := Verdict.ok_of_andThen he
  obtain ⟨block', hb, he⟩ := Verdict.ok_of_andThen he
  obtain ⟨onSuccess, hs, he⟩ := Verdict.ok_of_andThen he
  obtain ⟨onError, hf, he⟩ := Verdict.ok_of_andThen he
  obtain rfl := Except.ok.inj he
  refine h.loop hcontrol ?_ (fun e hw => ?_) (fun e hw => ?_) c.label c.jump
  · exact block h c.block (fun d hc t ht => hd t (.block hc ht)) hb
  · obtain rfl : onSuccess = some e := hw
    exact branch h c.onSuccess (fun d hc t ht => hd t (.onSuccess hc ht)) hs
  · obtain rfl : onError = some (.handler e) := hw
    exact failure h c.onError (fun d hc t ht => hd t (.onError hc ht)) hf
termination_by 4 * c.depth + 2
decreasing_by
  · have := c.depthOf_block_le; omega
  · have := c.depthOf_onSuccess_le; omega
  · have := c.failureDepth_onError_le; omega

theorem block (h : scope.Cases P Q) (d : Option (Declaration κ))
    (hd : ∀ d', d = some d' → ∀ t, d'.Holds t → Q t) {s : Sequence κ}
    (hs : (scope.block d).result = .ok s) : Q s := by
  match d, hd, hs with
  | none, _, hs =>
    rw [Scope.block] at hs
    exact absurd hs nofun
  | some d, hd, hs =>
    rw [Scope.block] at hs
    obtain ⟨e, he, hs⟩ := Verdict.ok_of_andThen hs
    exact h.body (declaration h d (hd d rfl) (Verdict.ok_of_inField he)) hs
termination_by 4 * depthOf d + 1
decreasing_by simp only [depthOf]; omega

theorem branch (h : scope.Cases P Q) {key : String} (d : Option (Declaration κ))
    (hd : ∀ d', d = some d' → ∀ t, d'.Holds t → Q t) {e : Entry κ}
    (he : (scope.branch key d).result = .ok (some e)) : P e := by
  match d, hd, he with
  | none, _, he =>
    rw [Scope.branch] at he
    exact absurd (Except.ok.inj he) nofun
  | some d, hd, he =>
    rw [Scope.branch] at he
    exact declaration h d (hd d rfl) (Verdict.ok_of_optional he)
termination_by 4 * depthOf d + 1
decreasing_by simp only [depthOf]; omega

theorem failure (h : scope.Cases P Q) (f : Option (FailureClause κ))
    (hd : ∀ d, f = some (.entry d) → ∀ t, d.Holds t → Q t) {e : Entry κ}
    (he : (scope.failure f).result = .ok (some (.handler e))) : P e := by
  match f, hd, he with
  | none, _, he | some (.flag true), _, he | some (.flag false), _, he =>
    rw [Scope.failure] at he
    exact absurd (Except.ok.inj he) nofun
  | some (.entry d), hd, he =>
    rw [Scope.failure] at he
    obtain ⟨r, hr, he⟩ := Verdict.ok_of_map he
    obtain ⟨x, rfl, hx⟩ := Option.map_eq_some_iff.mp he
    obtain rfl := LoopFailure.handler.inj hx
    exact declaration h d (hd d rfl) (Verdict.ok_of_optional hr)
termination_by 4 * failureDepth f + 1
decreasing_by simp only [failureDepth]; omega

end

end Scope.Cases
end Sequencer
