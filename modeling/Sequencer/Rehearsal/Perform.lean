import Sequencer.Engine.Step
import Sequencer.Rehearsal.Build
import Sequencer.Signal.Form

/-! Performing actions. Every action is user code, so that a script can do all that an operation
can: signal, start, look at a context, or panic. -/

namespace Sequencer.Rehearsal

structure Memory where
  calls : Table String Nat := {}
  choices : Table String Nat := {}
  contexts : Table String ContextId := {}
  /-- The run of each named context that was reported last. -/
  reported : Table String Nat := {}
  /-- What the latest action of the script returned. -/
  returned : Option Json := none

abbrev Play := Code Handle Memory Note

def errorForm (kind : String) (message : String) : Json :=
  .object [("error", .string kind), ("message", .string message)]

def decodeForm : Json := .object [("error", .string "Decode")]

def emitAll : List Note → Play → Play
  | [], k => k
  | n :: ns, k => .emit n (emitAll ns k)

/-- Makes a sequence and goes on with it, or returns why it is refused. -/
def making (cast : Cast) (b : Blueprint) (k : Option Json → Play)
    (use : Sequence Handle → Play) : Play :=
  let m := b.make cast
  emitAll m.notes <|
    match m.result with
    | .ok s => use s
    | .error e => k (some (errorForm "Document" e.message))

/-- Files a new context under a name, in place of the one that had it. -/
def Memory.file (m : Memory) (name : String) (c : ContextId) : Memory :=
  { m with
    contexts := m.contexts.insert name c
    reported := ⟨m.reported.rows.filter fun r => r.1 ≠ name⟩ }

/-- The code of an action on a context, which hands on what the action returns. -/
def Action.code (cast : Cast) (c : ContextId) : Action → (Option Json → Play) → Play
  | .send s, k => .post c s false (k none)
  | .sendStored v, k =>
    match Signal.ofJson? v with
    | some s => .post c s false (k none)
    | none => k (some decodeForm)
  | .defer name, k =>
    match Signal.parse name with
    | .ok s => .post c s true (k none)
    | .error f => k (some (errorForm "UnknownPrimitive" f.message))
  | .deferStored v, k =>
    match Signal.ofJson? v with
    | some s => .post c s true (k none)
    | none => k (some decodeForm)
  | .start b, k => making cast b k fun s => .launch c s (k none)
  | .startNew name b, k =>
    making cast b k fun s =>
      .create fun new => .launch new s <|
        .load fun m => .store (m.file name new) (k none)
  | .on name a, k =>
    .load fun m =>
      match m.contexts.get? name with
      | some d => a.code cast d k
      | none =>
        .create fun d =>
          .load fun m => .store (m.file name d) (a.code cast d k)
  | .state, k => .inspect c fun st => .emit (.state st) (k none)
  | .panic, _ => .panic

def performAll (cast : Cast) (c : ContextId) : List Action → Play → Play
  | [], k => k
  | a :: as, k =>
    a.code cast c fun r =>
      match r with
      | some v => .emit (.returned v) (performAll cast c as k)
      | none => performAll cast c as k

def Behavior.code (cast : Cast) (c : ContextId) (call : Nat) (params : List Json) :
    Behavior → Play → Play
  | .wait, k => k
  | .send s, k => .post c s false k
  | .perform, k => performAll cast c (params.filterMap cast.read) k
  | .fail, k => .post c (.errors (Signal.errorValues (params.headD .null))) false k
  | .jump, k => .post c (.goto ((params.head?.bind Json.asString?).getD "")) false k
  | .items is, k =>
    match nth? Item.times is call with
    | some i => performAll cast c i.actions k
    | none => k

def ResolverBehavior.code (cast : Cast) (c : ContextId) (call : Nat) (params : List Json) :
    ResolverBehavior → Play
  | .pick => .done ((params.head?.bind Json.asString?).getD "end")
  | .choices cs =>
    match nth? Choice.times cs call with
    | some ch => performAll cast c ch.actions (.done ch.label)
    | none => .done ""

def countOf (t : Table String Nat) (name : String) : Nat := (t.get? name).getD 0

def host (cast : Cast) : Host Handle Memory Note
  | .operation (.operation name) params, c =>
    .load fun m =>
      let n := countOf m.calls name
      .store { m with calls := m.calls.insert name (n + 1) } <|
        ((cast.operations.get? name).getD .wait).code cast c n params (.done "")
  | .resolver (.resolver name) params, c =>
    .load fun m =>
      let n := countOf m.choices name
      .store { m with choices := m.choices.insert name (n + 1) } <|
        ((cast.resolvers.get? name).getD (.choices [])).code cast c n params
  | .success (.success _ actions), c => performAll cast c actions (.done "")
  | .failure (.failure _ actions) _, c => performAll cast c actions (.done "")
  | _, _ => .done ""

end Sequencer.Rehearsal
