import Sequencer.Integer
import Sequencer.Settings.Basic
import Sequencer.Text.LowerCase
import Sequencer.Toml.Parser

/-! Layers of settings. A layer is laid over another key by key, and a key may be a path into the
layer below. Keys are laid down in lower case, so their case does not count. -/

namespace Sequencer

inductive LayerValue where
  | absent
  | bool (flag : Bool)
  | int (value : Int)
  | float (value : Real)
  | string (text : String)
  | array (items : List LayerValue)
  | table (rows : List (String × LayerValue))
deriving Inhabited

namespace LayerValue

def rows : LayerValue → List (String × LayerValue)
  | .table rows => rows
  | _ => []

def items : LayerValue → List LayerValue
  | .array items => items
  | _ => []

def get? (key : String) : List (String × LayerValue) → Option LayerValue
  | [] => none
  | (k, v) :: r => if k = key then some v else get? key r

def set (key : String) (v : LayerValue) : List (String × LayerValue) → List (String × LayerValue)
  | [] => [(key, v)]
  | (k, w) :: r => if k = key then (key, v) :: r else (k, w) :: set key v r

mutual

/-- Sets a key of a table, which is made if something else is there. A table is laid over the
table that the key has. -/
def assign (key : String) : LayerValue → LayerValue → LayerValue
  | .table incoming, root =>
    let old := (get? key root.rows).getD (.table [])
    .table (set key (overlay incoming old) root.rows)
  | v, root => .table (set key v root.rows)

def overlay : List (String × LayerValue) → LayerValue → LayerValue
  | [], target => target
  | (k, v) :: rows, target => overlay rows (assign (Text.lower k) v target)

end

/-! ### Paths -/

inductive PathStep where
  | key (name : String)
  | index (position : Int)
deriving Repr

/-- Places an index in an array that is made long enough; a negative one counts from the end, and
new places come before the first if need be. -/
def reach (items : List LayerValue) (i : Int) : List LayerValue × Nat :=
  if 0 ≤ i then
    (items ++ List.replicate (i.toNat + 1 - items.length) .absent, i.toNat)
  else
    (List.replicate (i.natAbs - items.length) .absent ++ items, items.length - i.natAbs)

/-- Changes what is at the end of a path; what is on the way is made a table or an array. -/
def alter (change : LayerValue → LayerValue) : List PathStep → LayerValue → LayerValue
  | [], v => change v
  | .key k :: path, v =>
    .table (set k (alter change path ((get? k v.rows).getD .absent)) v.rows)
  | .index i :: path, v =>
    let (items, n) := reach v.items i
    .array (items.set n (alter change path (items.getD n .absent)))

def setPath (path : List PathStep) (v root : LayerValue) : LayerValue :=
  match path.getLast? with
  | some (.key k) => alter (assign k v) path.dropLast root
  | some (.index _) => alter (fun _ => v) path root
  | none => root

def isNameChar (c : Char) : Bool :=
  c.isAlphanum || c = ' ' || c = '_' || c = '-'

def isIndexBlank (c : Char) : Bool := c = ' ' || c = '\t'

def index? (cs : List Char) : Option (Int × List Char) :=
  let (negative, cs) := match cs.dropWhile isIndexBlank with
    | '-' :: r => (true, r)
    | cs => (false, cs)
  let ds := cs.takeWhile Char.isDigit
  let n : Nat := ds.foldl (fun n c => n * 10 + (c.toNat - '0'.toNat)) 0
  match ds, (cs.dropWhile Char.isDigit).dropWhile isIndexBlank with
  | _ :: _, ']' :: r =>
    let i : Int := if negative then -(n : Int) else n
    if inWord i then some (i, r) else none
  | _, _ => none

def keyStep (name : String) : PathStep := .key (Text.lower name)

/-- The steps after the first key; `fuel` bounds how many. -/
def pathSteps? : Nat → List Char → Option (List PathStep)
  | _, [] => some []
  | 0, _ => none
  | fuel + 1, '.' :: r =>
    let name := r.takeWhile isNameChar
    if name.isEmpty then none
    else (pathSteps? fuel (r.dropWhile isNameChar)).map (keyStep (String.ofList name) :: ·)
  | fuel + 1, '[' :: r => do
    let (i, r) ← index? r
    return .index i :: (← pathSteps? fuel r)
  | _, _ => none

/-- A key as a path; what is no path is one key. -/
def pathOf (key : String) : List PathStep :=
  let cs := key.toList
  let name := cs.takeWhile isNameChar
  if name.isEmpty then [keyStep key]
  else
    match pathSteps? cs.length (cs.dropWhile isNameChar) with
    | some steps => keyStep (String.ofList name) :: steps
    | none => [keyStep key]

def cover (root : LayerValue) (source : List (String × LayerValue)) : LayerValue :=
  source.foldl (fun root (k, v) => setPath (pathOf k) v root) root

/-! ### Contents -/

/-- The date or time that a table stands for, if its first key says that it stands for one. -/
def datetimeOf (rows : List (String × Toml.Value)) : Option (Option String) :=
  match rows with
  | (k, v) :: _ =>
    if k = Toml.datetimeKey then
      match v with
      | .string s => some (Toml.spelledDatetime? s)
      | _ => some none
    else none
  | [] => none

mutual

/-- The contents of a document, unless a table in it stands for a date that is none. -/
def ofToml? : Toml.Value → Option LayerValue
  | .string s => some (.string s)
  | .integer n => some (.int n)
  | .float x => some (.float x)
  | .boolean b => some (.bool b)
  | .datetime t => some (.string t)
  | .array vs => (ofItems? vs).map .array
  | .table rows =>
    match datetimeOf rows with
    | some d => d.map .string
    | none => (ofRows? rows).map .table

def ofItems? : List Toml.Value → Option (List LayerValue)
  | [] => some []
  | v :: vs => do return (← ofToml? v) :: (← ofItems? vs)

def ofRows? : List (String × Toml.Value) → Option (List (String × LayerValue))
  | [] => some []
  | (k, v) :: rows => do return (k, ← ofToml? v) :: (← ofRows? rows)

end

def ofText? (text : String) : Option (List (String × LayerValue)) :=
  match (Toml.parse text).bind fun rows => ofToml? (.table rows) with
  | some (.table rows) => some rows
  | _ => none

def flagWord? (text : String) : Option Bool :=
  let w := Text.lower text
  if w = "1" ∨ w = "true" ∨ w = "on" ∨ w = "yes" then some true
  else if w = "0" ∨ w = "false" ∨ w = "off" ∨ w = "no" then some false
  else none

def realText : Real → String
  | .finite d => d.positional
  | .infinite negative => if negative then "-inf" else "inf"
  | .nan => "NaN"

def isZero : Real → Bool
  | .finite d => d.digits == 0
  | _ => false

/-- Flags may be numbers or words, and texts may be flags or numbers. -/
def lenient : Reading LayerValue where
  rows? := fun
    | .table rows => some rows
    | _ => none
  items? := fun
    | .array items => some items
    | _ => none
  bool? := fun
    | .bool b => some b
    | .int n => some (n != 0)
    | .float x => some (!isZero x)
    | .string s => flagWord? s
    | _ => none
  text? := fun
    | .string s => some s
    | .bool b => some (if b then "true" else "false")
    | .int n => some (toString n)
    | .float x => some (realText x)
    | _ => none

end LayerValue

/-- Every value has the type that its key asks for. A date looks like a table. -/
def Toml.strict : Reading Toml.Value where
  rows? := fun
    | .table rows => some rows
    | .datetime t => some [(Toml.datetimeKey, .string t)]
    | _ => none
  items? := fun
    | .array items => some items
    | _ => none
  bool? := fun
    | .boolean b => some b
    | _ => none
  text? := fun
    | .string s => some s
    | _ => none

end Sequencer
