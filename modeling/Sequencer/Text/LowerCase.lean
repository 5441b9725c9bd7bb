import Sequencer.Text.CaseTable

/-! Lower case of a text. Every character is mapped on its own, except a capital sigma, whose
form depends on whether it ends a word; one capital becomes two characters. -/

namespace Sequencer.Text

def isCased (c : Char) : Bool := inRanges casedRows c

def isCaseIgnorable (c : Char) : Bool := inRanges caseIgnorableRows c

def lowerRow? (n : Nat) : List CaseRow → Option CaseRow
  | [] => none
  | r :: rows => if r.covers n then some r else lowerRow? n rows

def lowerChar (c : Char) : List Char :=
  if c = '\u0130' then ['i', '\u0307']
  else
    match lowerRow? c.toNat lowerRows with
    | some r => [Char.ofNat (c.toNat + r.offset).toNat]
    | none => [c]

def casedNext (cs : List Char) : Bool :=
  match cs.dropWhile isCaseIgnorable with
  | [] => false
  | c :: _ => isCased c

/-- A sigma between `before`, nearest first, and `after` is the last letter of a word. -/
def endsWord (before after : List Char) : Bool := casedNext before && !casedNext after

/-- Lower case of what follows `before`, which holds the characters already passed, nearest
first. -/
def lowerFrom (before : List Char) : List Char → List Char
  | [] => []
  | c :: r =>
    (if c = '\u03a3' then [if endsWord before r then '\u03c2' else '\u03c3'] else lowerChar c) ++
      lowerFrom (c :: before) r

def lowerList (cs : List Char) : List Char := lowerFrom [] cs

def lower (s : String) : String := String.ofList (lowerList s.toList)

end Sequencer.Text
