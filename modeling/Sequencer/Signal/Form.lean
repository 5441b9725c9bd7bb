import Sequencer.Signal

/-! The form in which signals and outcomes are stored: an object whose `t` names the case and
whose `v` holds what the case carries. Reading is more lenient than writing: the tag may be the
key of an object, a pair may stand for the two members, and other members are passed over. -/

namespace Sequencer

structure Tagged where
  tag : String
  value : Option Json

namespace Tagged

/-- A tag is a text, or the only key of an object that holds null. -/
def tag? : Json → Option String
  | .string s => some s
  | .object [(k, .null)] => some k
  | _ => none

/-- The case that a stored value describes, whether or not there is a case of that name. -/
def read? : Json → Option Tagged
  | .object ms => do
    let t ← Json.member? "t" ms >>= tag?
    return ⟨t, Json.member? "v" ms⟩
  | .array [t, v] => do return ⟨← tag? t, some v⟩
  | _ => none

def write (x : Tagged) : Json :=
  match x.value with
  | none => .object [("t", .string x.tag)]
  | some v => .object [("t", .string x.tag), ("v", v)]

def isBare (x : Tagged) : Bool :=
  match x.value with
  | none => true
  | some .null => true
  | some _ => false

end Tagged

namespace Signal

def bare? (tag : String) : Option Signal :=
  if tag = "Next" then some .next
  else if tag = "Continue" then some .proceed
  else if tag = "Break" then some .leave
  else if tag = "True" then some .yes
  else if tag = "False" then some .no
  else if tag = "End" then some .finish
  else none

def ofJson? (value : Json) : Option Signal := do
  let x ← Tagged.read? value
  if x.tag = "Goto" then
    match x.value with
    | some (.string l) => some (.goto l)
    | _ => none
  else if x.tag = "Errors" then
    match x.value with
    | some (.array vs) => some (.errors vs)
    | _ => none
  else if x.isBare then bare? x.tag
  else none

def tagged : Signal → Tagged
  | .next => ⟨"Next", none⟩
  | .proceed => ⟨"Continue", none⟩
  | .leave => ⟨"Break", none⟩
  | .yes => ⟨"True", none⟩
  | .no => ⟨"False", none⟩
  | .goto l => ⟨"Goto", some (.string l)⟩
  | .errors vs => ⟨"Errors", some (.array vs)⟩
  | .finish => ⟨"End", none⟩

def toJson (s : Signal) : Json := s.tagged.write

end Signal

namespace Outcome

def ofJson? (value : Json) : Option Outcome := do
  let x ← Tagged.read? value
  if x.tag = "Failure" then
    match x.value with
    | some (.array es) => some (.failure es)
    | _ => none
  else if x.tag = "Success" ∧ x.isBare then some .success
  else none

def tagged : Outcome → Tagged
  | .success => ⟨"Success", none⟩
  | .failure es => ⟨"Failure", some (.array es)⟩

def toJson (o : Outcome) : Json := o.tagged.write

end Outcome
end Sequencer
