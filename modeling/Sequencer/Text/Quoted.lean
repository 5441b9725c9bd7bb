import Sequencer.Text.CaseTable
import Sequencer.Text.HiddenTable

/-! Quoted text for messages: a text between double quotes in which every character can be
seen. -/

namespace Sequencer.Text

def isHidden (c : Char) : Bool := inRanges hiddenRows c

/-- The hexadecimal digits of a code point, in lower case without leading zeros. -/
def hexDigits (n : Nat) : String := String.ofList (Nat.toDigits 16 n)

def quoteChar (c : Char) : String :=
  if c = Char.ofNat 0 then "\\0"
  else if c = '\t' then "\\t"
  else if c = '\n' then "\\n"
  else if c = '\r' then "\\r"
  else if c = '\\' then "\\\\"
  else if c = '"' then "\\\""
  else if isHidden c then "\\u\x7b" ++ hexDigits c.toNat ++ "\x7d"
  else String.singleton c

def quote (s : String) : String := "\"" ++ String.join (s.toList.map quoteChar) ++ "\""

end Sequencer.Text
