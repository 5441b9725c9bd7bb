import Sequencer.Decimal

/-! Values of documents, parameters and emitted errors. The members of an object are kept in the
order of their keys, one for each key, by everything that builds an object here. -/

namespace Sequencer

inductive Number where
  | int (value : Int)
  | float (value : Decimal)
deriving DecidableEq, Repr

inductive Json where
  | null
  | bool (flag : Bool)
  | number (value : Number)
  | string (text : String)
  | array (items : List Json)
  | object (members : List (String × Json))
deriving Inhabited, Repr

namespace Json

/-- The value of a key; the first member with that key decides. -/
def member? (key : String) : List (String × Json) → Option Json
  | [] => none
  | (k, v) :: ms => if k = key then some v else member? key ms

/-- Puts a member at its place among sorted ones, over any member with that key. -/
def place (key : String) (value : Json) : List (String × Json) → List (String × Json)
  | [] => [(key, value)]
  | (k, v) :: ms =>
    if k = key then (key, value) :: ms
    else if key < k then (key, value) :: (k, v) :: ms
    else (k, v) :: place key value ms

def ofMembers (members : List (String × Json)) : Json :=
  .object (members.foldl (fun ms m => place m.1 m.2 ms) [])

def int (n : Int) : Json := .number (.int n)

def nat (n : Nat) : Json := .number (.int n)

def ofOption {α : Type} (f : α → Json) : Option α → Json
  | none => .null
  | some a => f a

def text? : Option String → Json := ofOption .string

def asString? : Json → Option String
  | .string s => some s
  | _ => none

def asBool? : Json → Option Bool
  | .bool b => some b
  | _ => none

/-- What a value is called when it stands where it may not. -/
def kind : Json → String
  | .null => "null"
  | .bool _ => "boolean"
  | .number _ => "number"
  | .string _ => "string"
  | .array _ => "array"
  | .object _ => "object"

/-- A float of a document as a value; what is not finite has no value. -/
def ofReal : Real → Json
  | .finite d => .number (.float d)
  | .infinite _ => .null
  | .nan => .null

theorem sizeOf_member? {key : String} {ms : List (String × Json)} {v : Json}
    (h : member? key ms = some v) : sizeOf v < sizeOf ms := by
  induction ms with
  | nil => simp [member?] at h
  | cons m ms ih =>
    obtain ⟨k, w⟩ := m
    rw [member?] at h
    split at h
    · cases h; simp; omega
    · have := ih h; simp; omega

theorem member?_place (key key' : String) (value : Json) (ms : List (String × Json)) :
    member? key' (place key value ms) = if key = key' then some value else member? key' ms := by
  induction ms with
  | nil => simp [place, member?]
  | cons m ms ih =>
    obtain ⟨k, v⟩ := m
    rw [place]
    split
    · subst_vars
      by_cases h : k = key' <;> simp [member?, h]
    · split
      · simp [member?]
      · rename_i hk _
        by_cases h : k = key'
        · subst h
          simp [member?, show ¬ key = k from fun e => hk e.symm]
        · simp [member?, h, ih]

end Json
end Sequencer
