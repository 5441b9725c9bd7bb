import Sequencer.Settings.Layer
import Sequencer.Text.Blank
import Sequencer.Text.LetterTable

/-! Environment variables as a layer of settings, and files that define variables. -/

namespace Sequencer

abbrev Variables := List (String × String)

namespace Variables

def get? (name : String) : Variables → Option String
  | [] => none
  | (n, v) :: vs => if n = name then some v else get? name vs

/-! ### Values -/

def natOf (ds : List Char) : Nat := ds.foldl (fun n c => n * 10 + (c.toNat - '0'.toNat)) 0

def signed (cs : List Char) : Bool × List Char :=
  match cs with
  | '-' :: r => (true, r)
  | '+' :: r => (false, r)
  | r => (false, r)

def int? (text : String) : Option Int :=
  let (negative, cs) := signed text.toList
  if cs.isEmpty || !cs.all Char.isDigit then none
  else
    let n : Int := natOf cs
    let n := if negative then -n else n
    if inWord n then some n else none

def exponent? : List Char → Option Int
  | [] => some 0
  | c :: r =>
    if c = 'e' ∨ c = 'E' then
      let (negative, ds) := signed r
      if ds.isEmpty || !ds.all Char.isDigit then none
      else some (if negative then -(natOf ds : Int) else natOf ds)
    else none

/-- A decimal number, or a word for infinity or not-a-number in any case. -/
def real? (text : String) : Option Real := do
  let (negative, cs) := signed text.toList
  let word := String.ofList (cs.map Char.toLower)
  if word = "inf" ∨ word = "infinity" then return .infinite negative
  if word = "nan" then return .nan
  let whole := cs.takeWhile Char.isDigit
  let (fraction, r) := match cs.dropWhile Char.isDigit with
    | '.' :: r => (r.takeWhile Char.isDigit, r.dropWhile Char.isDigit)
    | r => ([], r)
  if whole.isEmpty && fraction.isEmpty then none
  let e ← exponent? r
  return Decimal.round negative (natOf (whole ++ fraction)) (e - fraction.length)

/-- What the text of a variable says: a flag, an integer, a number, or itself. -/
def parse (text : String) : LayerValue :=
  let w := Text.lower text
  if w = "true" then .bool true
  else if w = "false" then .bool false
  else
    match int? text, real? text with
    | some n, _ => .int n
    | none, some x => .float x
    | none, none => .string text

/-! ### The layer -/

/-- What the names of variables that are settings begin with, in any case. -/
def namePrefix : String := "cadence_"

/-- Two underscores separate the keys of a path. -/
def separate : List Char → List Char
  | '_' :: '_' :: r => '.' :: separate r
  | c :: r => c :: separate r
  | [] => []

def keyOf? (name : String) : Option String :=
  let cs := (Text.lower name).toList
  if namePrefix.toList.isPrefixOf cs then
    some (String.ofList (separate (cs.drop namePrefix.length)))
  else none

def layer (vs : Variables) : List (String × LayerValue) :=
  vs.filterMap fun (name, text) => (keyOf? name).map fun key => (key, parse text)

/-! ### Files of variables -/

/-- What the characters of a line leave open for the next line. -/
inductive LineState where
  | closed
  | blank
  | escape
  | single
  | singleEscape
  | double
  | doubleEscape

/-- How a line ends: the characters before a comment, or what it leaves open. -/
def scanLine (before : List Char) (st : LineState) : List Char → Sum (List Char) LineState
  | [] => .inr st
  | c :: r =>
    let fresh : LineState :=
      if c = '\\' then .escape
      else if c = '"' then .double
      else if c.toNat = 0x27 then .single
      else .closed
    match st with
    | .blank => if c = '#' then .inl before.reverse else scanLine (c :: before) fresh r
    | .closed =>
      if Text.isBlank c && c != '\n' && c != '\r' then scanLine (c :: before) .blank r
      else scanLine (c :: before) fresh r
    | .escape => scanLine (c :: before) .closed r
    | .double =>
      scanLine (c :: before)
        (if c = '\\' then .doubleEscape else if c = '"' then .closed else .double) r
    | .doubleEscape => scanLine (c :: before) .double r
    | .single =>
      scanLine (c :: before)
        (if c = '\\' then .singleEscape else if c.toNat = 0x27 then .closed else .single) r
    | .singleEscape => scanLine (c :: before) .single r

def rawLines (current : List Char) : List Char → List (List Char)
  | [] => if current.isEmpty then [] else [current.reverse]
  | c :: r =>
    if c = '\n' then (c :: current).reverse :: rawLines [] r else rawLines (c :: current) r

def dropLineEnd (cs : List Char) : List Char :=
  match cs.reverse with
  | '\n' :: '\r' :: r => r.reverse
  | '\n' :: r => r.reverse
  | r => r.reverse

/-- Joins the lines that a quote leaves open; a file that ends with something open ends before
it. -/
def joinLines (buffer : List Char) (st : LineState) : List (List Char) → List (List Char)
  | [] => []
  | l :: ls =>
    let joined := buffer ++ l
    if (joined.dropWhile Text.isBlank).head? = some '#' then [] :: joinLines [] .closed ls
    else
      match scanLine [] st l with
      | .inl kept => (buffer ++ kept) :: joinLines [] .closed ls
      | .inr .closed => dropLineEnd joined :: joinLines [] .closed ls
      | .inr st => joinLines joined st ls

inductive Substitution where
  | none
  | plain
  | braced
deriving DecidableEq

structure ValueState where
  single : Bool := false
  double : Bool := false
  escaped : Bool := false
  /-- A blank has been read, after which only a comment may come. -/
  ending : Bool := false
  substitution : Substitution := .none
  name : List Char := []
  output : List Char := []

namespace ValueState

def put (s : ValueState) (c : Char) : ValueState := { s with output := c :: s.output }

def substitute (lookup : String → String) (s : ValueState) : ValueState :=
  { s with
    output := (lookup (String.ofList s.name.reverse)).toList.reverse ++ s.output
    name := [] }

def isNameChar (c : Char) : Bool := Text.inRanges Text.letterOrDigitRows c

/-- A character that belongs to a substitution, or ends it. -/
def inName (lookup : String → String) (s : ValueState) (c : Char) : ValueState :=
  if isNameChar c then { s with name := c :: s.name }
  else if s.substitution = .braced then
    if c.toNat = 0x7d then { s.substitute lookup with substitution := .none }
    else { s with name := c :: s.name }
  else if c.toNat = 0x7b ∧ s.name = [] then { s with substitution := .braced }
  else if c = '$' then { s.substitute lookup with substitution := .plain }
  else { (s.substitute lookup).put c with substitution := .none }

def unescape? (c : Char) : Option Char :=
  if c = '\\' ∨ c.toNat = 0x27 ∨ c = '"' ∨ c = '$' ∨ c = ' ' then some c
  else if c = 'n' then some '\n'
  else none

def take? (lookup : String → String) (s : ValueState) (c : Char) : Option ValueState :=
  if s.escaped then (unescape? c).map fun e => { s.put e with escaped := false }
  else if s.single then
    some (if c.toNat = 0x27 then { s with single := false } else s.put c)
  else if s.substitution ≠ .none then some (s.inName lookup c)
  else if c = '$' then some { s with substitution := .plain }
  else if s.double then
    some (if c = '"' then { s with double := false }
      else if c = '\\' then { s with escaped := true }
      else s.put c)
  else if c.toNat = 0x27 then some { s with single := true }
  else if c = '"' then some { s with double := true }
  else if c = '\\' then some { s with escaped := true }
  else if c = ' ' ∨ c = '\t' then some { s with ending := true }
  else some (s.put c)

/-- The text of a value, unless a quote or a brace is left open or something stands behind it. -/
def read? (lookup : String → String) (s : ValueState) : List Char → Option String
  | [] => finished
  | c :: r =>
    if s.ending then
      if c = ' ' ∨ c = '\t' then read? lookup s r
      else if c = '#' then finished
      else none
    else
      match s.take? lookup c with
      | some s => read? lookup s r
      | none => none
where
  finished : Option String :=
    if s.substitution = .braced ∨ s.single ∨ s.double then none
    else some (String.ofList (s.substitute lookup).output.reverse)

end ValueState

def isKeyStart (c : Char) : Bool := c.isAlpha || c = '_'

def isKeyChar (c : Char) : Bool := c.isAlphanum || c = '_' || c = '.'

def key? (cs : List Char) : Option (String × List Char) :=
  match cs with
  | c :: _ =>
    if isKeyStart c then
      some (String.ofList (cs.takeWhile isKeyChar), (cs.dropWhile isKeyChar).dropWhile Text.isBlank)
    else none
  | [] => none

def equals? : List Char → Option (List Char)
  | '=' :: r => some (r.dropWhile Text.isBlank)
  | _ => none

/-- The name that a line defines and the text of its value; `export` may stand before the name. -/
def definition? (cs : List Char) : Option (String × List Char) := do
  let (k, r) ← key? cs
  match equals? r with
  | some r => some (k, r)
  | none =>
    if k = "export" then do
      let (k, r) ← key? r
      some (k, ← equals? r)
    else none

/-- Defines the variables of a file one after the other, up to a line that cannot be read. A
variable that is defined already keeps its value, also where it is put into another. -/
def loadLines (vs : Variables) (seen : Variables) : List (List Char) → Variables
  | [] => vs
  | l :: ls =>
    let cs := ((l.reverse.dropWhile Text.isBlank).reverse).dropWhile Text.isBlank
    if cs.isEmpty || cs.head? == some '#' then loadLines vs seen ls
    else
      match definition? cs with
      | none => vs
      | some (name, text) =>
        let lookup (n : String) : String := ((get? n vs).or (get? n seen)).getD ""
        let value :=
          if text.isEmpty || text.head? == some '#' then some ""
          else ({} : ValueState).read? lookup text
        match value with
        | none => vs
        | some v =>
          let vs := if (get? name vs).isSome then vs else vs ++ [(name, v)]
          loadLines vs ((name, v) :: seen) ls

def loadFile (vs : Variables) (text : String) : Variables :=
  let cs := match text.toList with
    | '\ufeff' :: r => r
    | cs => cs
  loadLines vs [] (joinLines [] .closed (rawLines [] cs))

end Variables
end Sequencer
