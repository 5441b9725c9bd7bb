import Sequencer.Json.Printer
import Sequencer.Rehearsal.Perform

/-! The forms in which a rehearsal reports what it made and saw. -/

namespace Sequencer.Rehearsal

def labelsForm (t : Table String Nat) : Json :=
  .ofMembers (t.rows.map fun r => (r.1, Json.nat r.2))

def refusalForm : DeclarationError → Json
  | .field key source =>
    .ofMembers [("error", .string "Field"),
      ("message", .string (DeclarationError.field key source).message), ("key", .string key),
      ("source", refusalForm source)]
  | e => errorForm e.kind e.message

/-- The name of the scripted operation or resolver that a handle stands for. -/
def Handle.name : Handle → Json
  | .operation n | .resolver n => .string n
  | .success id _ | .failure id _ => id

/-! ### Entries -/

def methodMembers (m : MethodCall Handle) : List (String × Json) :=
  [("label", Json.text? m.label), ("op", m.operation.name), ("params", .array m.params),
    ("jump", Json.text? m.jump)]

def methodForm (m : MethodCall Handle) : Json := .ofMembers (methodMembers m)

def targetForm : GotoTarget Handle → Json
  | .label l => .string l
  | .resolver h ps => .ofMembers [("resolver", h.name), ("params", .array ps)]

mutual

def sequenceForm : Sequence Handle → Json
  | ⟨name, entries, labels, breakOnError, _, _, _⟩ =>
    .ofMembers [("name", Json.text? name), ("break_on_error", .bool breakOnError),
      ("labels", labelsForm labels), ("entries", .array (entryForms entries))]

def entryForms : List (Entry Handle) → List Json
  | [] => []
  | e :: es => entryForm e :: entryForms es

def branchForm : Option (Entry Handle) → Json
  | none => .null
  | some e => entryForm e

def failureForm : Option (LoopFailure Handle) → Json
  | none => .null
  | some .suppress => .bool false
  | some (.handler e) => entryForm e

def entryForm : Entry Handle → Json
  | .method m => .ofMembers (("kind", .string "method") :: methodMembers m)
  | .conditional ⟨label, condition, whenTrue, whenFalse⟩ =>
    .ofMembers [("kind", .string "if"), ("label", Json.text? label),
      ("condition", methodForm condition), ("then", branchForm whenTrue),
      ("else", branchForm whenFalse)]
  | .loop ⟨label, control, block, onSuccess, onError, jump⟩ =>
    .ofMembers [("kind", .string "loop"), ("label", Json.text? label),
      ("control", match control with
        | .always => .bool true
        | .method m => methodForm m),
      ("block", sequenceForm block), ("on_success", branchForm onSuccess),
      ("on_error", failureForm onError), ("jump", Json.text? jump)]
  | .goto ⟨label, target, jump⟩ =>
    .ofMembers [("kind", .string "goto"), ("label", Json.text? label),
      ("target", targetForm target), ("jump", Json.text? jump)]
  | .error ⟨label, error, jump, breakOnEmit⟩ =>
    .ofMembers [("kind", .string "error"), ("label", Json.text? label),
      ("error", match error with
        | .message t => .string t
        | .method m => methodForm m),
      ("jump", Json.text? jump), ("break_on_emit", .bool breakOnEmit)]
  | .sequence ⟨label, s, jump⟩ =>
    .ofMembers [("kind", .string "sequence"), ("label", Json.text? label),
      ("sequence", sequenceForm s), ("jump", Json.text? jump)]

end

/-! ### Events -/

def activeForm : Option ActiveSequence → Json
  | none => .null
  | some a => .array [Json.text? a.name, Json.nat a.depth]

def diagnosticForm (d : Diagnostic) : Json :=
  let level := match d.severity with
    | .warn => "warn"
    | .error => "error"
  .ofMembers (("diag", .string level) :: ("message", .string d.message) ::
    d.fields.map fun f => (f.1, .string f.2))

def stateMembers (s : Status) : List (String × Json) :=
  [("active", activeForm s.active), ("finished", .bool s.isFinished),
    ("outcome", Json.ofOption Outcome.toJson s.outcome), ("has_errors", .bool s.hasErrors),
    ("errors", .array s.errors)]

def callForm (active : Option ActiveSequence) : Invocation Handle → Json
  | .operation h ps =>
    .ofMembers [("op", h.name), ("params", .array ps), ("at", activeForm active)]
  | .resolver h ps =>
    .ofMembers [("resolver", h.name), ("params", .array ps), ("at", activeForm active)]
  | .success h => .ofMembers [("handler", .string "success"), ("id", h.name)]
  | .failure h es =>
    .ofMembers [("handler", .string "error"), ("id", h.name), ("errors", .array es)]

def noteForm : Note → Json
  | .reported d => diagnosticForm d
  | .refused e => .object [("ret", refusalForm e)]
  | .returned v => .object [("ret", v)]
  | .state s => .object [("state", .ofMembers (stateMembers s))]

/-- The events that a report shows. -/
def eventForm? : Event Handle Note → Option Json
  | .called _ i active => some (callForm active i)
  | .reported _ d => some (diagnosticForm d)
  | .noted n => some (noteForm n)
  | .posted .. | .launched .. | .taken .. | .finished .. => none

/-- At most the first and the last `limit` of many. -/
def ends {α : Type} (limit : Nat) (as : List α) : List α :=
  if as.length ≤ 2 * limit then as else as.take limit ++ as.drop (as.length - limit)

end Sequencer.Rehearsal
