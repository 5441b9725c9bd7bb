import Sequencer.Toml.Number
import Sequencer.Toml.Table

/-! Reading TOML documents. Values nest at most 79 deep and keys have at most 79 parts. -/

namespace Sequencer.Toml

/-- One more than the deepest nesting of values and the longest dotted key. -/
def nestingLimit : Nat := 80

def isBareKey (c : Char) : Bool :=
  isDigit c || ('a' ≤ c && c ≤ 'z') || ('A' ≤ c && c ≤ 'Z') || c = '_' || c = '-'

def simpleKey? (cs : List Char) : Option (String × List Char) :=
  match lineString? cs with
  | some r => some r
  | none =>
    let ks := cs.takeWhile isBareKey
    if ks.isEmpty then none else some (String.ofList ks, cs.dropWhile isBareKey)

/-- The parts of a dotted key, with blanks around each of them; `fuel` bounds how many. -/
def keyParts? : Nat → Reader (List String)
  | 0, _ => none
  | fuel + 1, cs => do
    let (k, r) ← simpleKey? (skipSpace cs)
    match skipSpace r with
    | '.' :: r =>
      let (ks, r) ← keyParts? fuel r
      some (k :: ks, r)
    | r => some ([k], r)

def key? (cs : List Char) : Option ((List String × String) × List Char) := do
  let (ks, r) ← keyParts? (nestingLimit - 1) cs
  let last ← ks.getLast?
  some ((ks.dropLast, last), r)

def equals? (cs : List Char) : Option (List Char) :=
  match skipSpace cs with
  | '=' :: r => some (skipSpace r)
  | _ => none

def inlineTable? (pairs : List ((List String × String) × Value)) : Option Value :=
  (pairs.foldlM (fun (n : Node) p => n.define p.1.1 p.1.2 p.2) {}).map Node.toValue

mutual

/-- A value that stands inside `depth` others; `fuel` bounds the characters. -/
def value? : Nat → Nat → Reader Value
  | 0, _, _ => none
  | fuel + 1, depth, cs =>
    match cs with
    | [] => none
    | '[' :: r =>
      if nestingLimit ≤ depth + 1 then none
      else (items? fuel (depth + 1) r).map fun (vs, r) => (.array vs, r)
    | c :: r =>
      if c = '"' ∨ c.toNat = 0x27 then (string? (c :: r)).map fun (s, r) => (.string s, r)
      else if c.toNat = 0x7b then
        if nestingLimit ≤ depth + 1 then none
        else do
          let (pairs, r) ← pairs? fuel (depth + 1) true r
          some (← inlineTable? pairs, r)
      else if c = 't' then (word "true" (c :: r)).map fun r => (.boolean true, r)
      else if c = 'f' then (word "false" (c :: r)).map fun r => (.boolean false, r)
      else number? (c :: r)

/-- The items of an array up to its bracket; a comma may stand after the last one. -/
def items? : Nat → Nat → Reader (List Value)
  | 0, _, _ => none
  | fuel + 1, depth, cs =>
    match skipTrivia false cs with
    | ']' :: r => some ([], r)
    | cs => do
      let (v, r) ← value? fuel depth cs
      match skipTrivia false r with
      | ']' :: r => some ([v], r)
      | ',' :: r => do
        let (vs, r) ← items? fuel depth r
        some (v :: vs, r)
      | _ => none

/-- The pairs of an inline table up to its brace, which may stand at once only before the first
pair. -/
def pairs? : Nat → Nat → Bool → Reader (List ((List String × String) × Value))
  | 0, _, _, _ => none
  | fuel + 1, depth, first, cs =>
    match skipSpace cs with
    | [] => none
    | c :: r =>
      if first && c.toNat == 0x7d then some ([], r)
      else do
        let (k, r) ← key? (c :: r)
        let (v, r) ← value? fuel depth (← equals? r)
        match skipSpace r with
        | ',' :: r => do
          let (ps, r) ← pairs? fuel depth false r
          some ((k, v) :: ps, r)
        | c :: r => if c.toNat = 0x7d then some ([(k, v)], r) else none
        | [] => none

end

/-! ### Documents -/

inductive Header where
  | root
  | table (path : List String) (key : String)
  | array (path : List String) (key : String)

/-- What has been read of a document: the tables that are complete and the current one. -/
structure Progress where
  root : Node := {}
  current : Node := {}
  header : Header := .root

namespace Progress

def close (p : Progress) : Option Node :=
  match p.header with
  | .root => some p.current
  | .table path key => p.root.closeTable path key p.current
  | .array path key => p.root.closeArray path key p.current

def startTable (p : Progress) (path : List String) (key : String) : Option Progress := do
  let (root, current) ← (← p.close).openTable path key
  some { root, current, header := .table path key }

def startArray (p : Progress) (path : List String) (key : String) : Option Progress := do
  let root ← (← p.close).openArray path key
  some { root, header := .array path key }

def define (p : Progress) (path : List String) (key : String) (v : Value) : Option Progress :=
  (p.current.define path key v).map fun current => { p with current }

end Progress

def header? (p : Progress) (cs : List Char) : Option (Progress × List Char) :=
  match cs with
  | '[' :: r => do
    let ((path, key), r) ← key? r
    match r with
    | ']' :: ']' :: r => some (← p.startArray path key, ← finishLine? r)
    | _ => none
  | r => do
    let ((path, key), r) ← key? r
    match r with
    | ']' :: r => some (← p.startTable path key, ← finishLine? r)
    | _ => none

def pair? (p : Progress) (cs : List Char) : Option (Progress × List Char) := do
  let ((path, key), r) ← key? cs
  let r ← equals? r
  let (v, r) ← value? (r.length + 1) 0 r
  some (← p.define path key v, ← finishLine? r)

/-- Reads line by line; `fuel` bounds how many. -/
def lines? : Nat → Progress → List Char → Option Node
  | 0, _, _ => none
  | fuel + 1, p, cs =>
    match skipSpace cs with
    | [] => p.close
    | '[' :: r => do
      let (p, r) ← header? p r
      lines? fuel p r
    | c :: r =>
      if c = '#' ∨ c = '\n' ∨ c = '\r' then do lines? fuel p (← finishLine? (c :: r))
      else do
        let (p, r) ← pair? p (c :: r)
        lines? fuel p r

def dropMark : List Char → List Char
  | '\ufeff' :: r => r
  | cs => cs

def parse (text : String) : Option (List (String × Value)) :=
  let cs := dropMark text.toList
  match (lines? (cs.length + 1) {} cs).map Node.toValue with
  | some (.table rows) => some rows
  | _ => none

end Sequencer.Toml
