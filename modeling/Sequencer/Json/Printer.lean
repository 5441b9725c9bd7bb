import Sequencer.Json.Basic

/-! Compact text of a value: no blanks, members in the order of the object, and escapes only
where a string needs them. -/

namespace Sequencer

def Number.text : Number → String
  | .int n => toString n
  | .float d => d.scientific

namespace Json

/-- Four hexadecimal digits of a control character. -/
def controlEscape (n : Nat) : String :=
  let ds := Nat.toDigits 16 n
  "\\u" ++ String.ofList (List.replicate (4 - ds.length) '0' ++ ds)

def escapeChar (c : Char) : String :=
  if c = '"' then "\\\""
  else if c = '\\' then "\\\\"
  else if c = '\n' then "\\n"
  else if c = '\r' then "\\r"
  else if c = '\t' then "\\t"
  else if c.toNat = 0x8 then "\\b"
  else if c.toNat = 0xc then "\\f"
  else if c.toNat < 0x20 then controlEscape c.toNat
  else String.singleton c

def quoted (s : String) : String := "\"" ++ s.foldl (fun out c => out ++ escapeChar c) "" ++ "\""

mutual
def render : Json → String
  | .null => "null"
  | .bool true => "true"
  | .bool false => "false"
  | .number n => n.text
  | .string s => quoted s
  | .array items => "[" ++ renderItems "" items ++ "]"
  | .object members => "\x7b" ++ renderMembers "" members ++ "\x7d"

/-- The items, each after the separator of those before it. -/
def renderItems (out : String) : List Json → String
  | [] => out
  | v :: vs => renderItems ((if out.isEmpty then out else out ++ ",") ++ render v) vs

def renderMembers (out : String) : List (String × Json) → String
  | [] => out
  | (k, v) :: ms =>
    renderMembers ((if out.isEmpty then out else out ++ ",") ++ quoted k ++ ":" ++ render v) ms
end

end Json
end Sequencer
