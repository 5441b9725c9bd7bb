import Sequencer.Json.Basic

/-! Values of TOML documents. -/

namespace Sequencer.Toml

inductive Value where
  | string (text : String)
  | integer (value : Int)
  | float (value : Real)
  | boolean (flag : Bool)
  /-- A date, a time or both, in their standard spelling. -/
  | datetime (text : String)
  | array (items : List Value)
  | table (rows : List (String × Value))
deriving Inhabited, Repr

/-- The key under which a date or a time stands in an object of its own. -/
def datetimeKey : String := "$__toml_private_datetime"

mutual

def Value.toJson : Value → Json
  | .string s => .string s
  | .integer n => .int n
  | .float x => .ofReal x
  | .boolean b => .bool b
  | .datetime t => .object [(datetimeKey, .string t)]
  | .array vs => .array (itemsToJson vs)
  | .table rows => .ofMembers (rowsToJson rows)

def itemsToJson : List Value → List Json
  | [] => []
  | v :: vs => v.toJson :: itemsToJson vs

def rowsToJson : List (String × Value) → List (String × Json)
  | [] => []
  | (k, v) :: rows => (k, v.toJson) :: rowsToJson rows

end

/-- The value of a key of a table. -/
def lookup (key : String) : List (String × Value) → Option Value
  | [] => none
  | (k, v) :: rows => if k = key then some v else lookup key rows

end Sequencer.Toml
