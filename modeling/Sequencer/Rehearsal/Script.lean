import Sequencer.Declaration.Basic
import Sequencer.Signal

/-! Scripts rehearse sequences without any real operation: what operations, resolvers and handlers
do is written down as lists of actions, and so is how sequences are built. -/

namespace Sequencer.Rehearsal

mutual

inductive Action where
  | send (signal : Signal)
  /-- A signal in its stored form, which may not be one. -/
  | sendStored (stored : Json)
  | defer (primitive : String)
  | deferStored (stored : Json)
  | start (blueprint : Blueprint)
  /-- Starts on a new context, known by the name from then on. -/
  | startNew (context : String) (blueprint : Blueprint)
  | on (context : String) (action : Action)
  | state
  | panic

inductive Blueprint where
  | mk (source : Source) (names : Option (List String)) (steps : List BuildStep)

inductive Source where
  | json (document : Json)
  | toml (text : String)
  /-- Without any registry. -/
  | empty
  | blank

inductive BuildStep where
  | named (name : String)
  | breakOnError (flag : Bool)
  | add (times : Nat) (draft : Draft)
  | tryAdd (draft : Draft)
  | child
  | labelIndex (text : String)
  | onSuccess (id : Json) (actions : List Action)
  | onError (id : Json) (actions : List Action)

inductive Draft where
  | json (value : Json)
  | named (name : String)
  | operation (name : String)
  | members (members : List (String × Json))
  | sequence (blueprint : Blueprint)
  | object (fields : List DraftField)

inductive DraftField where
  | label (text : String)
  | jump (text : String)
  | params (value : Json)
  | doBreak (flag : Bool)
  | method (draft : Draft)
  | condition (draft : Draft)
  | whenTrue (draft : Draft)
  | whenFalse (draft : Draft)
  | block (draft : Draft)
  | onSuccess (draft : Draft)
  | sequence (draft : Draft)
  | controlFlag (flag : Bool)
  | control (draft : Draft)
  | onErrorFlag (flag : Bool)
  | onError (draft : Draft)
  | gotoLabel (label : String)
  | gotoResolver (name : String) (params : Option Json)
  | gotoNamed (name : String) (params : Option Json)
  | errorMessage (text : String)
  | error (draft : Draft)

end

instance : Inhabited Blueprint := ⟨.mk .blank none []⟩

instance : Inhabited Draft := ⟨.json .null⟩

/-- What a scripted operation does each time it is called. -/
structure Item where
  times : Nat
  actions : List Action

/-- What a scripted resolver answers and does each time it is called. -/
structure Choice where
  times : Nat
  label : String
  actions : List Action

inductive Behavior where
  | wait
  | send (signal : Signal)
  | perform
  | fail
  | jump
  | items (items : List Item)

inductive ResolverBehavior where
  /-- Answers its first parameter, or `end`. -/
  | pick
  | choices (choices : List Choice)

inductive Handle where
  | operation (name : String)
  | resolver (name : String)
  | success (id : Json) (actions : List Action)
  | failure (id : Json) (actions : List Action)

/-- Everything that a rehearsal knows about its operations and resolvers. -/
structure Cast where
  operations : Table String Behavior
  resolvers : Table String ResolverBehavior
  read : Json → Option Action

/-- The entry for call number `n`, each standing for a number of calls and the last one for all
that follow. -/
def nth? {α : Type} (times : α → Nat) : List α → Nat → Option α
  | [], _ => none
  | [a], _ => some a
  | a :: as, n => if n < times a then some a else nth? times as (n - times a)

/-- The operations that exist unless a script gives the same name to others. -/
def standardOperations : List (String × Behavior) :=
  [("next", .send .next), ("continue", .send .proceed), ("break", .send .leave),
    ("true", .send .yes), ("false", .send .no), ("end", .send .finish), ("wait", .wait),
    ("do", .perform), ("fail", .fail), ("jump", .jump)]

def Cast.ofScript (operations : List (String × Behavior))
    (resolvers : List (String × ResolverBehavior)) (read : Json → Option Action) : Cast where
  operations := Table.ofList (standardOperations ++ operations)
  resolvers := Table.ofList (("pick", .pick) :: resolvers)
  read := read

/-- The registry of all operations and resolvers, or of those that are listed. -/
def Cast.registry (cast : Cast) (names : Option (List String)) : Registry Handle :=
  let listed (name : String) : Bool := match names with
    | none => true
    | some ns => ns.contains name
  let chosen (names : List String) : List String :=
    (names.filter listed).mergeSort fun a b => decide (a ≤ b)
  let operations := (chosen cast.operations.keys).foldl
    (fun (r : Registry Handle) n => r.register n (.operation n)) {}
  (chosen cast.resolvers.keys).foldl (fun r n => r.registerResolver n (.resolver n)) operations

end Sequencer.Rehearsal
