import Sequencer.Declaration.Members
import Sequencer.Declaration.Verdict
import Sequencer.Sequence

/-! The normal form of declarations. Every declaration becomes one entry or is refused. What an
object declares is decided by the first of the keys `error`, `sequence`, `method`, `if`,
`loop`, `goto` that it has; an optional branch that is refused is reported and left out. -/

namespace Sequencer
variable {κ : Type}

/-- What the normal form of a declaration depends on besides the declaration: the names that it
may use, and the error policy of the sequences that it creates. -/
structure Scope (κ : Type) where
  registry : Registry κ
  breakOnError : Bool

def Sequence.scope (s : Sequence κ) : Scope κ := ⟨s.registry, s.breakOnError⟩

def Scope.sequence (scope : Scope κ) : Sequence κ :=
  { breakOnError := scope.breakOnError, registry := scope.registry }

/-- Parameters are a list: an array is one already, null is empty, any other value stands alone. -/
def cleanParams : Option Json → List Json
  | none => []
  | some .null => []
  | some (.array items) => items
  | some v => [v]

/-! ### Operations -/

namespace MethodCall

def ofName (registry : Registry κ) (name : String) : Except DeclarationError (MethodCall κ) :=
  let name := Text.trim name
  if name.isEmpty then .error .emptyName
  else
    match registry.operation? name with
    | some h => .ok { operation := h }
    | none => .error (.unknownOperation name)

mutual

def ofDeclaration (registry : Registry κ) : Declaration κ → Except DeclarationError (MethodCall κ)
  | .operation h => .ok { operation := h }
  | .named n => ofName registry n
  | .object c => ofClauses registry c
  | .sequence _ => .error .notAnOperation
  | .json (.string n) => ofName registry n
  | .json (.object ms) => ofClauses registry (.ofMembers ms)
  | .json _ => .error .notAnOperation
termination_by d => 2 * d.depth
decreasing_by
  · simp only [Declaration.depth]; omega
  · have := Clauses.depth_ofMembers (κ := κ) ms
    simp only [Declaration.depth, Json.object.sizeOf_spec]; omega

/-- Of nested objects the outermost gives the label, the parameters and the jump. -/
def ofClauses (registry : Registry κ) (c : Clauses κ) : Except DeclarationError (MethodCall κ) :=
  match _h : c.method with
  | none => .error .notAnOperation
  | some d =>
    (ofDeclaration registry d).map fun call =>
      { call with
        label := Label.clean? c.label
        params := cleanParams c.params
        jump := Label.clean? c.jump }
termination_by 2 * c.depth + 1
decreasing_by
  have := c.depthOf_method_le
  simp only [_h, depthOf] at this; omega

end

/-- The call of a condition or of a loop control, which has no label and whose jump is taken off
and reported. -/
def ofControl (registry : Registry κ) (key : String) (d : Declaration κ) : Verdict (MethodCall κ) :=
  match ofDeclaration registry d with
  | .error e => .refuse (.field key e)
  | .ok call =>
    match call.jump with
    | none => .accept { call with label := none }
    | some j =>
      (Verdict.accept { call with label := none, jump := none }).report (.controlJump key j)

end MethodCall

/-! ### Entries without branches -/

def LoopControl.ofClause (registry : Registry κ) : LoopClause κ → Verdict (LoopControl κ)
  | .flag true => .accept .always
  | .flag false => .refuse .missingLoopControl
  | .method d => (MethodCall.ofControl registry "loop" d).map .method

def GotoTarget.ofClause (registry : Registry κ) :
    GotoClause κ → Except DeclarationError (GotoTarget κ)
  | .label name =>
    match Label.clean name with
    | some l => .ok (.label l)
    | none => .error .emptyGotoTarget
  | .resolver h params => .ok (.resolver h (cleanParams params))
  | .named name params =>
    let name := Text.trim name
    if name.isEmpty then .error .emptyGotoTarget
    else
      match registry.resolver? name with
      | some h => .ok (.resolver h (cleanParams params))
      | none => .error (.unknownResolver name)

def ErrorValue.ofClause (registry : Registry κ) :
    ErrorClause κ → Except DeclarationError (ErrorValue κ)
  | .message text =>
    let text := Text.trim text
    if text.isEmpty then .error .emptyErrorValue else .ok (.message text)
  | .method d => ((MethodCall.ofDeclaration registry d).map .method).mapError (.field "error")

/-- An error entry breaks when it emits, unless it is told not to, or a jump or an operation
already says where to go on. -/
def ErrorEntry.ofValue (c : Clauses κ) (error : ErrorValue κ) : ErrorEntry κ where
  label := Label.clean? c.label
  error := error
  jump := Label.clean? c.jump
  breakOnEmit := c.doBreak.getD true && (Label.clean? c.jump).isNone &&
    match error with
    | .message _ => true
    | .method _ => false

/-- The body of a loop is a sequence. An entry that is none is wrapped into one, unless it could
not stand alone in a body. -/
def Scope.body (scope : Scope κ) : Entry κ → Except DeclarationError (Sequence κ)
  | .error _ => .error (.invalidLoopBlock "an error entry cannot be a loop body")
  | .goto ⟨_, _, some _⟩ => .error (.invalidLoopBlock "a goto loop body cannot carry a jump")
  | .sequence ⟨_, s, none⟩ => .ok s
  | e => .ok (scope.sequence.push e)

/-! ### The normal form -/

def Sequence.pushVerdict (s : Sequence κ) (v : Verdict (Entry κ)) : Sequence κ × List Diagnostic :=
  match v.result with
  | .ok e => (s.push e, v.reports)
  | .error e => (s, v.reports ++ [.invalidEntry e])

mutual

def Declaration.normalize (scope : Scope κ) : Declaration κ → Verdict (Entry κ)
  | .operation h => .accept (.method { operation := h })
  | .named n => .ofExcept ((MethodCall.ofName scope.registry n).map .method)
  | .object c => c.normalize scope
  | .sequence s => .accept (.sequence ⟨none, s, none⟩)
  | .json (.string n) => .ofExcept ((MethodCall.ofName scope.registry n).map .method)
  | .json (.array items) =>
    let (s, reports) := scope.fill scope.sequence items
    ⟨.ok (.sequence ⟨none, s, none⟩), reports⟩
  | .json (.object ms) => (Clauses.ofMembers ms).normalize scope
  | .json v => .refuse (.unrecognizedShape v.kind)
termination_by d => 4 * d.depth
decreasing_by
  · simp only [Declaration.depth]; omega
  · simp only [Declaration.depth, Json.array.sizeOf_spec]; omega
  · have := Clauses.depth_ofMembers (κ := κ) ms
    simp only [Declaration.depth, Json.object.sizeOf_spec]; omega

/-- Adds the items of an array one after the other; those that are refused are left out. -/
def Scope.fill (scope : Scope κ) (s : Sequence κ) : List Json → Sequence κ × List Diagnostic
  | [] => (s, [])
  | v :: vs =>
    let (s, first) := s.pushVerdict ((Declaration.json v).normalize scope)
    let (s, rest) := scope.fill s vs
    (s, first ++ rest)
termination_by vs => 8 * sizeOf vs
decreasing_by
  · simp only [Declaration.depth, List.cons.sizeOf_spec]; omega
  · simp only [List.cons.sizeOf_spec]; omega

def Clauses.normalize (scope : Scope κ) (c : Clauses κ) : Verdict (Entry κ) :=
  match c.error with
  | some e =>
    .ofExcept ((ErrorValue.ofClause scope.registry e).map fun v => .error (.ofValue c v))
  | none =>
    match _h : c.sequence with
    | some d =>
      (d.nested scope).map fun s =>
        .sequence ⟨Label.clean? c.label, s, Label.clean? c.jump⟩
    | none =>
      if c.method.isSome then .ofExcept ((MethodCall.ofClauses scope.registry c).map .method)
      else
        match c.condition with
        | some d =>
          let v := c.choice scope d
          if (Label.clean? c.jump).isSome then v.report .conditionalJump else v
        | none =>
          match c.control with
          | some control => c.repetition scope control
          | none =>
            match c.goto with
            | some target =>
              .ofExcept ((GotoTarget.ofClause scope.registry target).map fun t =>
                .goto ⟨Label.clean? c.label, t, Label.clean? c.jump⟩)
            | none => .refuse (.unrecognizedShape "object without an entry key")
termination_by 4 * c.depth + 3
decreasing_by
  · have := c.depthOf_sequence_le
    simp only [_h, depthOf] at this; omega
  all_goals omega

def Declaration.nested (scope : Scope κ) : Declaration κ → Verdict (Sequence κ)
  | .sequence s => .accept s
  | .json (.array items) =>
    let (s, reports) := scope.fill scope.sequence items
    ⟨.ok s, reports⟩
  | _ => .refuse (.invalidField "sequence" "a sequence or an array of declarations")
termination_by d => 4 * d.depth
decreasing_by
  simp only [Declaration.depth, Json.array.sizeOf_spec]; omega

/-- A conditional needs at least one branch that is accepted. -/
def Clauses.choice (scope : Scope κ) (c : Clauses κ) (condition : Declaration κ) :
    Verdict (Entry κ) :=
  (MethodCall.ofControl scope.registry "if" condition).andThen fun condition =>
    (scope.branch "then" c.whenTrue).andThen fun whenTrue =>
      (scope.branch "else" c.whenFalse).andThen fun whenFalse =>
        if whenTrue.isNone && whenFalse.isNone then .refuse .missingBranch
        else .accept (.conditional ⟨Label.clean? c.label, condition, whenTrue, whenFalse⟩)
termination_by 4 * c.depth + 2
decreasing_by
  · have := c.depthOf_whenTrue_le; omega
  · have := c.depthOf_whenFalse_le; omega

def Clauses.repetition (scope : Scope κ) (c : Clauses κ) (control : LoopClause κ) :
    Verdict (Entry κ) :=
  (LoopControl.ofClause scope.registry control).andThen fun control =>
    (scope.block c.block).andThen fun block =>
      (scope.branch "on-success" c.onSuccess).andThen fun onSuccess =>
        (scope.failure c.onError).andThen fun onError =>
          .accept (.loop ⟨Label.clean? c.label, control, block, onSuccess, onError,
            Label.clean? c.jump⟩)
termination_by 4 * c.depth + 2
decreasing_by
  · have := c.depthOf_block_le; omega
  · have := c.depthOf_onSuccess_le; omega
  · have := c.failureDepth_onError_le; omega

def Scope.block (scope : Scope κ) : Option (Declaration κ) → Verdict (Sequence κ)
  | none => .refuse .missingLoopBlock
  | some d => ((d.normalize scope).inField "block").andThen fun e => .ofExcept (scope.body e)
termination_by d => 4 * depthOf d + 1
decreasing_by simp only [depthOf]; omega

def Scope.branch (scope : Scope κ) (key : String) :
    Option (Declaration κ) → Verdict (Option (Entry κ))
  | none => .accept none
  | some d => (d.normalize scope).optional key
termination_by d => 4 * depthOf d + 1
decreasing_by simp only [depthOf]; omega

def Scope.failure (scope : Scope κ) : Option (FailureClause κ) → Verdict (Option (LoopFailure κ))
  | none => .accept none
  | some (.flag true) => .accept none
  | some (.flag false) => .accept (some .suppress)
  | some (.entry d) => ((d.normalize scope).optional "on-error").map (·.map .handler)
termination_by d => 4 * failureDepth d + 1
decreasing_by simp only [failureDepth]; omega

end

/-! ### Adding declarations -/

namespace Sequence

def tryAdd (s : Sequence κ) (d : Declaration κ) : Verdict (Sequence κ) :=
  (d.normalize s.scope).map s.push

/-- Appends a declaration; one that is refused is reported and leaves the sequence as it was. -/
def add (s : Sequence κ) (d : Declaration κ) : Sequence κ × List Diagnostic :=
  s.pushVerdict (d.normalize s.scope)

def addAll (s : Sequence κ) : List (Declaration κ) → Sequence κ × List Diagnostic
  | [] => (s, [])
  | d :: ds =>
    let (s, first) := s.add d
    let (s, rest) := s.addAll ds
    (s, first ++ rest)

theorem scope_pushVerdict (s : Sequence κ) (v : Verdict (Entry κ)) :
    (s.pushVerdict v).1.scope = s.scope := by
  unfold pushVerdict
  cases v.result <;> rfl

theorem addAll_cons_fst (s : Sequence κ) (d : Declaration κ) (ds : List (Declaration κ)) :
    (s.addAll (d :: ds)).1 = ((s.add d).1.addAll ds).1 := rfl

end Sequence

theorem Scope.fill_eq_addAll (s : Sequence κ) (vs : List Json) :
    s.scope.fill s vs = s.addAll (vs.map .json) := by
  induction vs generalizing s with
  | nil => rw [fill, List.map_nil, Sequence.addAll]
  | cons v vs ih =>
    have hrest := ih (s.add (.json v)).1
    rw [Sequence.add, s.scope_pushVerdict] at hrest
    rw [fill, List.map_cons, Sequence.addAll, Sequence.add]
    exact congrArg (fun r => (r.1, (s.pushVerdict _).2 ++ r.2)) hrest

theorem Scope.fill_cons_fst (scope : Scope κ) (s : Sequence κ) (v : Json) (vs : List Json) :
    (scope.fill s (v :: vs)).1 =
      (scope.fill (s.pushVerdict ((Declaration.json v).normalize scope)).1 vs).1 := by
  rw [fill]

end Sequencer
