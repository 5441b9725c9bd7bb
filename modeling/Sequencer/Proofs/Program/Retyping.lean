import Mathlib.Data.List.Forall2
import Sequencer.Declaration.Normal

/-! Values of documents and the declarations that say the same. A declaration may be read as an
entry, as the call of an operation or as a nested sequence. What cannot be told apart in any of
these readings may stand for each other in every clause, so that a text may be replaced by the name
it spells, an object by its clauses and an array by the sequence of its items, here and there or
throughout. -/

namespace Sequencer
variable {κ : Type}

/-! ### Clauses with related declarations -/

inductive LoopClause.Related (R : Declaration κ → Declaration κ → Prop) :
    LoopClause κ → LoopClause κ → Prop
  | flag (value : Bool) : Related R (.flag value) (.flag value)
  | method {d d' : Declaration κ} (h : R d d') : Related R (.method d) (.method d')

inductive FailureClause.Related (R : Declaration κ → Declaration κ → Prop) :
    FailureClause κ → FailureClause κ → Prop
  | flag (value : Bool) : Related R (.flag value) (.flag value)
  | entry {d d' : Declaration κ} (h : R d d') : Related R (.entry d) (.entry d')

inductive ErrorClause.Related (R : Declaration κ → Declaration κ → Prop) :
    ErrorClause κ → ErrorClause κ → Prop
  | message (text : String) : Related R (.message text) (.message text)
  | method {d d' : Declaration κ} (h : R d d') : Related R (.method d) (.method d')

/-- The same clauses, but for declarations that stand in the same place and are related. -/
inductive Clauses.Related (R : Declaration κ → Declaration κ → Prop) : Clauses κ → Clauses κ → Prop
  | intro {label jump : Option String} {params : Option Json} {goto : Option (GotoClause κ)}
    {doBreak : Option Bool} {m m' i i' t t' f f' b b' s s' q q' : Option (Declaration κ)}
    {l l' : Option (LoopClause κ)} {r r' : Option (FailureClause κ)} {e e' : Option (ErrorClause κ)}
    (method : Option.Rel R m m') (condition : Option.Rel R i i') (whenTrue : Option.Rel R t t')
    (whenFalse : Option.Rel R f f') (control : Option.Rel (LoopClause.Related R) l l')
    (block : Option.Rel R b b') (onSuccess : Option.Rel R s s')
    (onError : Option.Rel (FailureClause.Related R) r r')
    (error : Option.Rel (ErrorClause.Related R) e e') (sequence : Option.Rel R q q') :
    Related R ⟨label, m, params, i, t, f, l, b, s, r, goto, e, doBreak, q, jump⟩
      ⟨label, m', params, i', t', f', l', b', s', r', goto, e', doBreak, q', jump⟩

theorem Clauses.related_option {α : Type} {R S : α → α → Prop} {o o' : Option α}
    (h : Option.Rel R o o') (hRS : ∀ a a', o = some a → R a a' → S a a') : Option.Rel S o o' := by
  cases h with
  | none => exact .none
  | some h => exact .some (hRS _ _ rfl h)

theorem Clauses.Related.mono {R S : Declaration κ → Declaration κ → Prop} {c c' : Clauses κ}
    (h : Related R c c') (hRS : ∀ d d', d.depth ≤ c.depth → R d d' → S d d') : Related S c c' := by
  have field {o o' : Option (Declaration κ)} (hle : depthOf o ≤ c.depth) (ho : Option.Rel R o o') :
      Option.Rel S o o' := by
    refine related_option ho fun d d' hd hdd' => hRS d d' ?_ hdd'
    rwa [hd] at hle
  have hmethod := c.depthOf_method_le
  have hcondition := c.depthOf_condition_le
  have hwhenTrue := c.depthOf_whenTrue_le
  have hwhenFalse := c.depthOf_whenFalse_le
  have hcontrol := c.loopDepth_control_le
  have hblock := c.depthOf_block_le
  have honSuccess := c.depthOf_onSuccess_le
  have honError := c.failureDepth_onError_le
  have herror := c.errorDepth_error_le
  have hsequence := c.depthOf_sequence_le
  cases h with
  | intro method condition whenTrue whenFalse control block onSuccess onError error sequence =>
    refine .intro (field hmethod method) (field hcondition condition) (field hwhenTrue whenTrue)
      (field hwhenFalse whenFalse) (related_option control ?_) (field hblock block)
      (field honSuccess onSuccess) (related_option onError ?_) (related_option error ?_)
      (field hsequence sequence)
    · rintro x x' rfl hx
      cases hx with
      | flag value => exact .flag value
      | method h => exact .method (hRS _ _ hcontrol h)
    · rintro x x' rfl hx
      cases hx with
      | flag value => exact .flag value
      | entry h => exact .entry (hRS _ _ honError h)
    · rintro x x' rfl hx
      cases hx with
      | message text => exact .message text
      | method h => exact .method (hRS _ _ herror h)

/-! ### Declarations alike -/

namespace Verdict
variable {α β : Type}

theorem result_andThen (v : Verdict α) (f : α → Verdict β) :
    (v.andThen f).result = v.result.bind fun a => (f a).result := by
  unfold andThen
  cases v.result <;> rfl

theorem result_optional (key : String) (v : Verdict α) :
    (v.optional key).result = .ok v.result.toOption := by
  unfold optional
  cases v.result <;> rfl

end Verdict

/-- Not to be told apart by what they give, in whichever way they are read. -/
structure Declaration.Alike (scope : Scope κ) (d d' : Declaration κ) : Prop where
  entry : (d.normalize scope).result = (d'.normalize scope).result
  call : MethodCall.ofDeclaration scope.registry d = MethodCall.ofDeclaration scope.registry d'
  nested : (d.nested scope).result = (d'.nested scope).result

section
variable {scope : Scope κ}

theorem LoopClause.Related.ofClause_eq {x x' : LoopClause κ}
    (h : Related (Declaration.Alike scope) x x') :
    LoopControl.ofClause scope.registry x = LoopControl.ofClause scope.registry x' := by
  cases h with
  | flag value => rfl
  | method h => simp only [LoopControl.ofClause, MethodCall.ofControl, h.call]

theorem ErrorClause.Related.ofClause_eq {x x' : ErrorClause κ}
    (h : Related (Declaration.Alike scope) x x') :
    ErrorValue.ofClause scope.registry x = ErrorValue.ofClause scope.registry x' := by
  cases h with
  | message text => rfl
  | method h => simp only [ErrorValue.ofClause, h.call]

theorem Scope.result_branch_eq {key : String} {d d' : Option (Declaration κ)}
    (h : Option.Rel (Declaration.Alike scope) d d') :
    (scope.branch key d).result = (scope.branch key d').result := by
  cases h with
  | none => rfl
  | some h =>
    rw [branch, branch, Verdict.result_optional, Verdict.result_optional, h.entry]

theorem Scope.result_failure_eq {f f' : Option (FailureClause κ)}
    (h : Option.Rel (FailureClause.Related (Declaration.Alike scope)) f f') :
    (scope.failure f).result = (scope.failure f').result := by
  cases h with
  | none => rfl
  | some h =>
    cases h with
    | flag value => rfl
    | entry h =>
      rw [failure, failure, Verdict.map, Verdict.map, Verdict.result_optional,
        Verdict.result_optional, h.entry]

theorem Scope.result_block_eq {d d' : Option (Declaration κ)}
    (h : Option.Rel (Declaration.Alike scope) d d') :
    (scope.block d).result = (scope.block d').result := by
  cases h with
  | none => rfl
  | some h =>
    rw [block, block, Verdict.result_andThen, Verdict.result_andThen, Verdict.inField,
      Verdict.inField, h.entry]

namespace Clauses.Related
variable {c c' : Clauses κ}

theorem ofClauses_eq (h : Related (Declaration.Alike scope) c c') :
    MethodCall.ofClauses scope.registry c = MethodCall.ofClauses scope.registry c' := by
  cases h with
  | intro method =>
    rw [MethodCall.ofClauses, MethodCall.ofClauses]
    cases method with
    | none => rfl
    | some h => simp only [h.call]

theorem result_choice_eq (h : Related (Declaration.Alike scope) c c') {d d' : Declaration κ}
    (hd : d.Alike scope d') : (c.choice scope d).result = (c'.choice scope d').result := by
  cases h with
  | intro method condition whenTrue whenFalse =>
    rw [choice, choice]
    simp only [Verdict.result_andThen, MethodCall.ofControl, hd.call,
      Scope.result_branch_eq whenTrue, Scope.result_branch_eq whenFalse]

theorem result_repetition_eq (h : Related (Declaration.Alike scope) c c') {x x' : LoopClause κ}
    (hx : x.Related (Declaration.Alike scope) x') :
    (c.repetition scope x).result = (c'.repetition scope x').result := by
  cases h with
  | intro method condition whenTrue whenFalse control block onSuccess onError =>
    rw [repetition, repetition]
    simp only [Verdict.result_andThen, hx.ofClause_eq, Scope.result_block_eq block,
      Scope.result_branch_eq onSuccess, Scope.result_failure_eq onError]

theorem result_normalize_eq (h : Related (Declaration.Alike scope) c c') :
    (c.normalize scope).result = (c'.normalize scope).result := by
  have hcall := h.ofClauses_eq
  have hchoice {d d' : Declaration κ} (hd : d.Alike scope d') := h.result_choice_eq hd
  have hrepetition {x x' : LoopClause κ} (hx : x.Related (Declaration.Alike scope) x') :=
    h.result_repetition_eq hx
  cases h with
  | intro method condition whenTrue whenFalse control block onSuccess onError error sequence =>
    rw [normalize, normalize]
    cases error with
    | some he => simp only [he.ofClause_eq, ErrorEntry.ofValue]
    | none =>
      cases sequence with
      | some hq => simp only [Verdict.map, hq.nested]
      | none =>
        cases method with
        | some hm => simp only [Option.isSome_some, if_true, hcall]
        | none =>
          cases condition with
          | some hi =>
            simp only [Option.isSome_none, Bool.false_eq_true, if_false]
            split
            · exact hchoice hi
            · exact hchoice hi
          | none =>
            cases control with
            | some hl => exact hrepetition hl
            | none => rfl

end Clauses.Related

theorem Sequence.add_eq_of_alike {s : Sequence κ} {d d' : Declaration κ} (h : d.Alike s.scope d') :
    (s.add d).1 = (s.add d').1 := by
  unfold add pushVerdict
  rw [h.entry]
  split <;> rfl

theorem Sequence.addAll_eq_of_alike {s : Sequence κ} {ds ds' : List (Declaration κ)}
    (h : List.Forall₂ (Declaration.Alike s.scope) ds ds') : (s.addAll ds).1 = (s.addAll ds').1 := by
  induction ds generalizing s ds' with
  | nil =>
    cases h
    rfl
  | cons d ds ih =>
    cases h with
    | cons hd hds =>
      have hscope : (s.add d).1.scope = s.scope := s.scope_pushVerdict _
      rw [addAll_cons_fst, addAll_cons_fst, ih (hscope ▸ hds), add_eq_of_alike hd]

namespace Declaration

theorem Alike.trans {d₁ d₂ d₃ : Declaration κ} (h : Alike scope d₁ d₂) (h' : Alike scope d₂ d₃) :
    Alike scope d₁ d₃ :=
  ⟨h.entry.trans h'.entry, h.call.trans h'.call, h.nested.trans h'.nested⟩

theorem alike_name (scope : Scope κ) (n : String) : Alike scope (.json (.string n)) (.named n) where
  entry := by rw [normalize, normalize]
  call := by rw [MethodCall.ofDeclaration, MethodCall.ofDeclaration]
  nested := by
    rw [nested, nested]
    all_goals simp

theorem alike_array {items : List Json} {s : Sequence κ}
    (h : (scope.fill scope.sequence items).1 = s) :
    Alike scope (.json (.array items)) (.sequence s) where
  entry := by
    subst h
    rw [normalize, normalize]
    rfl
  call := by
    rw [MethodCall.ofDeclaration, MethodCall.ofDeclaration]
    all_goals simp
  nested := by
    subst h
    rw [nested, nested]
    rfl

theorem alike_members (scope : Scope κ) (ms : List (String × Json)) :
    Alike scope (.json (.object ms)) (.object (.ofMembers ms)) where
  entry := by rw [normalize, normalize]
  call := by rw [MethodCall.ofDeclaration, MethodCall.ofDeclaration]
  nested := by
    rw [nested, nested]
    all_goals simp

theorem alike_clauses {c c' : Clauses κ} (h : Clauses.Related (Alike scope) c c') :
    Alike scope (.object c) (.object c') where
  entry := by
    rw [normalize, normalize]
    exact h.result_normalize_eq
  call := by
    rw [MethodCall.ofDeclaration, MethodCall.ofDeclaration]
    exact h.ofClauses_eq
  nested := by
    rw [nested, nested]
    all_goals simp

end Declaration
end

/-! ### Retyping -/

/-- The second declaration is the first with some of the values of documents in it, at any places
and at any depth, replaced by the typed declarations that say the same to the owner. -/
inductive Declaration.Retyped (owner : Sequence κ) : Declaration κ → Declaration κ → Prop
  | same (d : Declaration κ) : Retyped owner d d
  | name (n : String) : Retyped owner (.json (.string n)) (.named n)
  | array {items : List Json} {ds : List (Declaration κ)}
    (h : List.Forall₂ (Retyped owner) (items.map .json) ds) :
    Retyped owner (.json (.array items)) (.sequence (owner.child.addAll ds).1)
  | object {ms : List (String × Json)} {c : Clauses κ}
    (h : Clauses.Related (Retyped owner) (.ofMembers ms) c) :
    Retyped owner (.json (.object ms)) (.object c)
  | clauses {c c' : Clauses κ} (h : Clauses.Related (Retyped owner) c c') :
    Retyped owner (.object c) (.object c')

namespace Declaration.Retyped
variable {owner : Sequence κ}

mutual

theorem alike {d d' : Declaration κ} (h : d.Retyped owner d') : d.Alike owner.scope d' := by
  cases h with
  | same => exact ⟨rfl, rfl, rfl⟩
  | name n => exact alike_name _ n
  | array h =>
    refine alike_array ?_
    rw [← Sequence.addAll_eq_of_alike (s := owner.child) (alike_items h), ← Scope.fill_eq_addAll]
    rfl
  | @object ms c h =>
    have hdepth := Clauses.depth_ofMembers (κ := κ) ms
    exact (alike_members _ ms).trans (alike_clauses (h.mono fun d d' hle hd => alike hd))
  | clauses h => exact alike_clauses (h.mono fun d d' hle hd => alike hd)
termination_by d.depth
decreasing_by
  · simp only [Declaration.depth, Json.array.sizeOf_spec]; omega
  · simp only [Declaration.depth, Json.object.sizeOf_spec]; omega
  · simp only [Declaration.depth]; omega

theorem alike_items {items : List Json} {ds : List (Declaration κ)}
    (h : List.Forall₂ (Retyped owner) (items.map .json) ds) :
    List.Forall₂ (Alike owner.scope) (items.map .json) ds := by
  match items, h with
  | [], .nil => exact .nil
  | v :: vs, .cons hv hvs => exact .cons (alike hv) (alike_items hvs)
termination_by 2 * sizeOf items
decreasing_by
  · simp only [Declaration.depth, List.cons.sizeOf_spec]; omega
  · simp only [List.cons.sizeOf_spec]; omega

end

end Declaration.Retyped

/-- Adding a declaration gives the same sequence, or the same reason to refuse it, whichever of the
values in it are typed. -/
theorem Sequence.tryAdd_retyped {s : Sequence κ} {d d' : Declaration κ} (h : d.Retyped s d') :
    (s.tryAdd d).result = (s.tryAdd d').result := by
  rw [tryAdd, tryAdd, Verdict.map, Verdict.map, h.alike.entry]

def surveyor : Sequence String :=
  { breakOnError := false, registry := ⟨⟨[("check", "check"), ("step", "step")]⟩, {}⟩ }

/-- A loop that is declared by values of documents alone, down to its last part. -/
def survey : Json := .object [
  ("block", .array [.string "step", .object [("else", .string "step"), ("if", .string "check")]]),
  ("loop", .object [("jump", .string "Out"), ("method", .string "check")]),
  ("on-error", .object [("error", .object [("method", .string "step")])]),
  ("on-success", .object [("sequence", .array [.string "nowhere"])])]

def typedSurvey : Clauses String where
  control := some (.method (.object { method := some (.named "check"), jump := some "Out" }))
  block := some (.sequence (surveyor.child.addAll [.named "step",
    .object { condition := some (.named "check"), whenFalse := some (.named "step") }]).1)
  onError := some (.entry (.object
    { error := some (.method (.object { method := some (.named "step") })) }))
  onSuccess := some (.object
    { sequence := some (.sequence (surveyor.child.addAll [.named "nowhere"]).1) })

theorem retyped_survey : (Declaration.json survey).Retyped surveyor (.object typedSurvey) := by
  have hcondition :
      (Declaration.json (.object [("else", .string "step"), ("if", .string "check")])).Retyped
        surveyor (.object
          { condition := some (.named "check"), whenFalse := some (.named "step") }) :=
    .object
      (.intro .none (.some (.name _)) .none (.some (.name _)) .none .none .none .none .none .none)
  have hcontrol :
      (Declaration.json (.object [("jump", .string "Out"), ("method", .string "check")])).Retyped
        surveyor (.object { method := some (.named "check"), jump := some "Out" }) :=
    .object (.intro (.some (.name _)) .none .none .none .none .none .none .none .none .none)
  have hreport : (Declaration.json (.object [("method", .string "step")])).Retyped surveyor
      (.object { method := some (.named "step") }) :=
    .object (.intro (.some (.name _)) .none .none .none .none .none .none .none .none .none)
  have honError :
      (Declaration.json (.object [("error", .object [("method", .string "step")])])).Retyped
        surveyor (.object
          { error := some (.method (.object { method := some (.named "step") })) }) :=
    .object (.intro .none .none .none .none .none .none .none .none (.some (.method hreport)) .none)
  have honSuccess :
      (Declaration.json (.object [("sequence", .array [.string "nowhere"])])).Retyped
        surveyor (.object
          { sequence := some (.sequence (surveyor.child.addAll [.named "nowhere"]).1) }) :=
    .object (.intro .none .none .none .none .none .none .none .none .none
      (.some (.array (.cons (.name _) .nil))))
  exact .object (.intro .none .none .none .none (.some (.method hcontrol))
    (.some (.array (.cons (.name _) (.cons hcondition .nil)))) (.some honSuccess)
    (.some (.entry honError)) .none .none)

def surveyLoop : Loop String where
  label := none
  control := .method { operation := "check" }
  block := { surveyor with
    entries := [.method { operation := "step" },
      .conditional ⟨none, { operation := "check" }, none, some (.method { operation := "step" })⟩] }
  onSuccess := some (.sequence ⟨none, surveyor, none⟩)
  onError := some (.handler (.error ⟨none, .method { operation := "step" }, none, false⟩))
  jump := none

theorem tryAdd_typedSurvey :
    (surveyor.tryAdd (.object typedSurvey)).result = .ok (surveyor.push (.loop surveyLoop)) := by
  simp [Sequence.tryAdd, typedSurvey, Sequence.addAll, Sequence.add, Declaration.normalize,
    Clauses.normalize, Clauses.repetition, Clauses.choice, LoopControl.ofClause,
    MethodCall.ofControl, MethodCall.ofDeclaration, MethodCall.ofClauses, ErrorValue.ofClause,
    Declaration.nested, Scope.block, Scope.branch, Scope.failure]
  rfl

/-- The loop is built from the document too, and a call that is no call is refused alike. -/
theorem survey_retyped :
    (Declaration.json survey).Retyped surveyor (.object typedSurvey) ∧
    (surveyor.tryAdd (.json survey)).result = .ok (surveyor.push (.loop surveyLoop)) ∧
    (Declaration.json (.object [("method", .array [.string "step"])])).Retyped surveyor
      (.object { method := some (.sequence (surveyor.child.addAll [.named "step"]).1) }) ∧
    (surveyor.tryAdd (.json (.object [("method", .array [.string "step"])]))).result =
      .error .notAnOperation := by
  have hrefused :
      (Declaration.json (.object [("method", .array [.string "step"])])).Retyped
        surveyor (.object
          { method := some (.sequence (surveyor.child.addAll [.named "step"]).1) }) :=
    .object (.intro (.some (.array (.cons (.name _) .nil)))
      .none .none .none .none .none .none .none .none .none)
  refine ⟨retyped_survey, ?_, hrefused, ?_⟩
  · rw [Sequence.tryAdd_retyped retyped_survey]
    exact tryAdd_typedSurvey
  · rw [Sequence.tryAdd_retyped hrefused]
    simp [Sequence.tryAdd, Declaration.normalize, Clauses.normalize, MethodCall.ofClauses,
      MethodCall.ofDeclaration]
    rfl

end Sequencer
