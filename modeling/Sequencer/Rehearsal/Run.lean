import Sequencer.Rehearsal.Report

/-! Whole rehearsals: a script run on the context `main`, a sequence built step by step, a single
declaration tried, and a registry filled and asked. -/

namespace Sequencer.Rehearsal

/-- The world of a rehearsal knows one context, called `main`. -/
def opening : World Handle Memory :=
  { created := 1, host := { contexts := ⟨[("main", 0)]⟩ } }

/-- More steps than any rehearsal that ends could take. -/
def patience : Nat := 1000000000000

def runForm (last : Option Nat) : Option Nat → Json
  | none => .null
  | some r => .string (if last = some r then "same" else "new")

def reportStates (w : World Handle Memory) : Json × World Handle Memory :=
  let rows := w.host.contexts.rows
  let form (r : String × ContextId) : String × Json :=
    let s := (w.context r.2).status
    (r.1, .ofMembers (("run", runForm (w.host.reported.get? r.1) s.run) :: stateMembers s))
  let reported := rows.foldl (fun (t : Table String Nat) r =>
    match (w.context r.2).status.run with
    | some n => t.insert r.1 n
    | none => t) w.host.reported
  (.ofMembers (rows.map form), { w with host := { w.host with reported } })

def playAction (cast : Cast) (limit : Option Nat) (w : World Handle Memory) (a : Action) :
    Json × World Handle Memory :=
  let code : Play :=
    .load fun m => .store { m with returned := none } <|
      a.code cast ((w.host.contexts.get? "main").getD 0) fun r =>
        .load fun m => .store { m with returned := r } (.done "")
  let (result, log) := Engine.runFor (host cast) patience ⟨w, [.code code]⟩ []
  let (w, extra) : World Handle Memory × List (String × Json) := match result with
    | .returned w _ => (w, match w.host.returned with
      | some v => [("ret", v)]
      | none => [])
    | .panicked w => (w, [("panicked", .bool true)])
    | .unfinished => (w, [])
  let events := log.reverse.filterMap eventForm?
  let counted : List (String × Json) := match limit with
    | some n => [("total", .nat events.length), ("events", .array (ends n events))]
    | none => [("events", .array events)]
  let (states, w) := reportStates w
  (.ofMembers (("states", states) :: counted ++ extra), w)

def playAll (cast : Cast) (limit : Option Nat) (w : World Handle Memory) : List Action → List Json
  | [] => []
  | a :: as =>
    let (form, w) := playAction cast limit w a
    form :: playAll cast limit w as

def play (cast : Cast) (limit : Option Nat) (script : List Action) : Json :=
  .object [("steps", .array (playAll cast limit opening script))]

def returnedForm : Returned → Json
  | .nothing => .null
  | .index i => Json.ofOption Json.nat i
  | .refusal e => refusalForm e

def snapshotForm (s : Snapshot) : Json :=
  .ofMembers [("ret", returnedForm s.returned), ("name", Json.text? s.sequence.name),
    ("len", .nat s.sequence.size), ("is_empty", .bool s.sequence.isEmpty),
    ("break_on_error", .bool s.sequence.breakOnError), ("labels", labelsForm s.sequence.labels),
    ("events", .array (s.notes.map noteForm))]

def build (cast : Cast) (b : Blueprint) : Json :=
  match (b.unfold cast).result with
  | .error e => errorForm "Document" e.message
  | .ok snaps =>
    .ofMembers [("steps", .array (snaps.map snapshotForm)),
      ("sequence", sequenceForm (last {} snaps))]

def normalize (cast : Cast) (breakOnError : Option Bool) (d : Draft) : Json :=
  match (d.make cast).result with
  | .error e => errorForm "Document" e.message
  | .ok d =>
    let s : Sequence Handle :=
      { registry := cast.registry none, breakOnError := breakOnError.getD true }
    let v := d.normalize s.scope
    let events := ("events", Json.array (v.reports.map diagnosticForm))
    match v.result with
    | .ok e =>
      .ofMembers [("kind", .string e.kind), ("label", Json.text? e.label),
        ("jump", Json.text? e.jump), ("entry", entryForm e), events]
    | .error e =>
      let members := match refusalForm e with
        | .object ms => ms
        | _ => []
      let left := (s.pushVerdict v).1
      .ofMembers (members ++ [events,
        ("left_empty", .bool (left.isEmpty && left.labels.rows.isEmpty))])

inductive RegistryStep where
  | register (name : String) (id : Json)
  | registerResolver (name : String) (id : Json)
  | operation (name : String)
  | resolver (name : String)
  | describe

def registryStep (r : Registry Json) : RegistryStep → Json × Registry Json
  | .register name id => (.null, r.register name id)
  | .registerResolver name id => (.null, r.registerResolver name id)
  | .operation name =>
    match r.operation? name with
    | some id => (.array [id, .array [.nat 1]], r)
    | none => (.bool false, r)
  | .resolver name =>
    match r.resolver? name with
    | some id => (.string (id.render ++ "/0"), r)
    | none => (.bool false, r)
  | .describe => (.string r.describe, r)

def consult (r : Registry Json) : List RegistryStep → List Json
  | [] => []
  | s :: ss =>
    let (form, r) := registryStep r s
    form :: consult r ss

end Sequencer.Rehearsal
