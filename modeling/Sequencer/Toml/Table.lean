import Sequencer.Toml.Value

/-! Tables while a document is being read. A table may be written in several places, but only once
under a header of its own, and dotted keys may extend only tables that came about through
dotted keys. -/

namespace Sequencer.Toml

mutual

structure Node where
  /-- Came about as a step on the way to another table. -/
  implicit : Bool := false
  dotted : Bool := false
  items : List (String × Item) := []

inductive Item where
  | value (value : Value)
  | table (node : Node)
  /-- An array of tables, the last one first. -/
  | tables (nodes : List Node)

end

namespace Node

def get? (key : String) : List (String × Item) → Option Item
  | [] => none
  | (k, i) :: r => if k = key then some i else get? key r

def set (key : String) (item : Item) : List (String × Item) → List (String × Item)
  | [] => [(key, item)]
  | (k, i) :: r => if k = key then (key, item) :: r else (k, i) :: set key item r

def erase (n : Node) (key : String) : Node :=
  { n with items := n.items.filter fun i => i.1 != key }

def put (n : Node) (key : String) (item : Item) : Node := { n with items := set key item n.items }

def find? (n : Node) (key : String) : Option Item := get? key n.items

/-- Changes the table at the end of a path and makes the tables on the way that are missing. The
last table of an array stands for the array. -/
def alter (dotted : Bool) (change : Node → Option Node) : List String → Node → Option Node
  | [], n => change n
  | k :: path, n =>
    match n.find? k with
    | none =>
      (alter dotted change path { implicit := true, dotted }).map fun t => n.put k (.table t)
    | some (.value _) => none
    | some (.tables []) => none
    | some (.tables (t :: ts)) =>
      (alter dotted change path t).map fun t => n.put k (.tables (t :: ts))
    | some (.table t) =>
      if dotted && !t.implicit then none
      else (alter dotted change path t).map fun t => n.put k (.table t)

/-- Sets a key that may be dotted; no key is set twice. -/
def define (n : Node) (path : List String) (key : String) (v : Value) : Option Node :=
  alter true (fun t =>
    if t.dotted == path.isEmpty then none
    else if (t.find? key).isSome then none
    else some (t.put key (.value v))) path n

/-- Starts the table of a header. A table that is only implied so far is taken over, and its key
comes last once the table is closed. -/
def openTable (n : Node) (path : List String) (key : String) : Option (Node × Node) := do
  let n ← alter false some path n
  let parent ← at? path n
  match parent.find? key with
  | none => some (n, {})
  | some (.table t) =>
    if t.implicit && !t.dotted then do
      let n ← alter false (fun p => some (p.erase key)) path n
      some (n, { t with implicit := false, dotted := false })
    else none
  | some _ => none
where
  /-- The table at the end of a path. -/
  at? : List String → Node → Option Node
    | [], n => some n
    | k :: path, n =>
      match n.find? k with
      | some (.table t) => at? path t
      | some (.tables (t :: _)) => at? path t
      | _ => none

def openArray (n : Node) (path : List String) (key : String) : Option Node :=
  alter false (fun t =>
    match t.find? key with
    | none => some t
    | some (.tables _) => some t
    | some _ => none) path n

def closeTable (n : Node) (path : List String) (key : String) (t : Node) : Option Node :=
  alter false (fun p => some (p.put key (.table t))) path n

def closeArray (n : Node) (path : List String) (key : String) (t : Node) : Option Node :=
  alter false (fun p =>
    match p.find? key with
    | none => some (p.put key (.tables [t]))
    | some (.tables ts) => some (p.put key (.tables (t :: ts)))
    | some _ => none) path n

end Node

mutual

def Node.toValue : Node → Value
  | ⟨_, _, items⟩ => .table (itemRows items)

def itemRows : List (String × Item) → List (String × Value)
  | [] => []
  | (k, i) :: r => (k, i.toValue) :: itemRows r

def Item.toValue : Item → Value
  | .value v => v
  | .table n => n.toValue
  | .tables ns => .array (nodeValues [] ns)

def nodeValues (later : List Value) : List Node → List Value
  | [] => later
  | n :: ns => nodeValues (n.toValue :: later) ns

end

end Sequencer.Toml
