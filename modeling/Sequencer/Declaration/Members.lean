import Sequencer.Declaration.Basic

/-! The clauses that an object of a document spells. Reading never fails: a value of the wrong
type is kept in a shape that is refused later, so that the key still decides what the object
declares. Only `label`, `jump` and `do-break` are ignored when they have the wrong type. -/

namespace Sequencer
variable {κ : Type}

def LoopClause.ofJson : Json → LoopClause κ
  | .bool b => .flag b
  | v => .method (.json v)

def FailureClause.ofJson : Json → FailureClause κ
  | .bool b => .flag b
  | v => .entry (.json v)

def ErrorClause.ofJson : Json → ErrorClause κ
  | .string s => .message s
  | v => .method (.json v)

/-- A label, or an object that names a resolver under `method`. -/
def GotoClause.ofJson : Json → GotoClause κ
  | .string s => .label s
  | .object ms =>
    .named (((Json.member? "method" ms).bind Json.asString?).getD "") (Json.member? "params" ms)
  | _ => .label ""

namespace Clauses

def ofMembers (ms : List (String × Json)) : Clauses κ where
  label := (Json.member? "label" ms).bind Json.asString?
  method := (Json.member? "method" ms).map .json
  params := Json.member? "params" ms
  condition := (Json.member? "if" ms).map .json
  whenTrue := (Json.member? "then" ms).map .json
  whenFalse := (Json.member? "else" ms).map .json
  control := (Json.member? "loop" ms).map .ofJson
  block := (Json.member? "block" ms).map .json
  onSuccess := (Json.member? "on-success" ms).map .json
  onError := (Json.member? "on-error" ms).map .ofJson
  goto := (Json.member? "goto" ms).map .ofJson
  error := (Json.member? "error" ms).map .ofJson
  doBreak := (Json.member? "do-break" ms).bind Json.asBool?
  sequence := (Json.member? "sequence" ms).map .json
  jump := (Json.member? "jump" ms).bind Json.asString?

theorem sizeOf_pos (ms : List (String × Json)) : 0 < sizeOf ms := by
  cases ms <;> simp only [List.nil.sizeOf_spec, List.cons.sizeOf_spec] <;> omega

theorem depthOf_member? (key : String) (ms : List (String × Json)) :
    depthOf ((Json.member? key ms).map (Declaration.json (κ := κ))) < 2 * sizeOf ms := by
  cases h : Json.member? key ms with
  | none => simpa [depthOf] using sizeOf_pos ms
  | some v =>
    have := Json.sizeOf_member? h
    simp [depthOf, Declaration.depth]
    omega

theorem loopDepth_member? (key : String) (ms : List (String × Json)) :
    loopDepth ((Json.member? key ms).map (LoopClause.ofJson (κ := κ))) < 2 * sizeOf ms := by
  cases h : Json.member? key ms with
  | none => simpa [loopDepth] using sizeOf_pos ms
  | some v =>
    have := Json.sizeOf_member? h
    cases v <;> simp only [Option.map_some, LoopClause.ofJson, loopDepth, Declaration.depth] <;>
      omega

theorem failureDepth_member? (key : String) (ms : List (String × Json)) :
    failureDepth ((Json.member? key ms).map (FailureClause.ofJson (κ := κ))) < 2 * sizeOf ms := by
  cases h : Json.member? key ms with
  | none => simpa [failureDepth] using sizeOf_pos ms
  | some v =>
    have := Json.sizeOf_member? h
    cases v <;>
      simp only [Option.map_some, FailureClause.ofJson, failureDepth, Declaration.depth] <;> omega

theorem errorDepth_member? (key : String) (ms : List (String × Json)) :
    errorDepth ((Json.member? key ms).map (ErrorClause.ofJson (κ := κ))) < 2 * sizeOf ms := by
  cases h : Json.member? key ms with
  | none => simpa [errorDepth] using sizeOf_pos ms
  | some v =>
    have := Json.sizeOf_member? h
    cases v <;>
      simp only [Option.map_some, ErrorClause.ofJson, errorDepth, Declaration.depth] <;> omega

theorem depth_ofMembers (ms : List (String × Json)) :
    (ofMembers ms : Clauses κ).depth < 2 * sizeOf ms := by
  refine maximum_lt (Nat.mul_pos (by decide) (sizeOf_pos ms)) fun n hn => ?_
  simp only [List.mem_cons, List.not_mem_nil, or_false] at hn
  rcases hn with rfl | rfl | rfl | rfl | rfl | rfl | rfl | rfl | rfl | rfl
  all_goals
    first
    | exact depthOf_member? _ _
    | exact loopDepth_member? _ _
    | exact failureDepth_member? _ _
    | exact errorDepth_member? _ _

end Clauses
end Sequencer
