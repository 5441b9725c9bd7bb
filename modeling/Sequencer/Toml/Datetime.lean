import Sequencer.Toml.Text
import Sequencer.Toml.Value

/-! Dates and times of TOML documents. A reader answers the standard spelling of what it read: a
`T` before the time, a fraction without trailing zeros, and an offset in hours and minutes. -/

namespace Sequencer.Toml

structure ClockBounds where
  hour : Nat
  offsetHour : Nat
  offsetMinute : Nat

def ClockBounds.bare : ClockBounds := ⟨23, 23, 59⟩

/-- Bounds of a time in a text of its own: a day may end at 24, and an offset counts minutes up to a
whole day. -/
def ClockBounds.quoted : ClockBounds := ⟨24, 99, 99⟩

def fixed? (count low high : Nat) (cs : List Char) : Option (Nat × List Char) :=
  let ds := cs.take count
  let n := ofDigits 10 ds
  if ds.length = count ∧ ds.all isDigit ∧ low ≤ n ∧ n ≤ high then some (n, cs.drop count) else none

def mark? (c : Char) : List Char → Option (List Char)
  | d :: r => if c = d then some r else none
  | [] => none

def padded (count n : Nat) : String :=
  let ds := Nat.toDigits 10 n
  String.ofList (List.replicate (count - ds.length) '0' ++ ds)

def daysIn (year month : Nat) : Nat :=
  if month = 2 then
    if year % 4 = 0 ∧ (year % 100 ≠ 0 ∨ year % 400 = 0) then 29 else 28
  else if month = 4 ∨ month = 6 ∨ month = 9 ∨ month = 11 then 30
  else 31

def date? : Reader String := fun cs => do
  let (year, r) ← fixed? 4 0 9999 cs
  let (month, r) ← fixed? 2 1 12 (← mark? '-' r)
  let (day, r) ← fixed? 2 1 31 (← mark? '-' r)
  if daysIn year month < day then none
  else some (padded 4 year ++ "-" ++ padded 2 month ++ "-" ++ padded 2 day, r)

/-- A fraction of a second, of which nine digits count; trailing zeros are not written. -/
def secondFraction : Reader String
  | '.' :: r =>
    let ds := r.takeWhile isDigit
    if ds.isEmpty then none
    else
      let kept := ((ds.take 9).reverse.dropWhile (· = '0')).reverse
      some (if kept.isEmpty then "" else "." ++ String.ofList kept, r.dropWhile isDigit)
  | r => some ("", r)

def time? (b : ClockBounds) : Reader String := fun cs => do
  let (hour, r) ← fixed? 2 0 b.hour cs
  let (minute, r) ← fixed? 2 0 59 (← mark? ':' r)
  let (second, r) ← fixed? 2 0 60 (← mark? ':' r)
  let (fraction, r) ← secondFraction r
  some (padded 2 hour ++ ":" ++ padded 2 minute ++ ":" ++ padded 2 second ++ fraction, r)

/-- The offset of a time; none is more than a day. -/
def offset? (b : ClockBounds) : Reader String
  | c :: r =>
    if c = 'Z' ∨ c = 'z' then some ("Z", r)
    else if c = '+' ∨ c = '-' then do
      let (hours, r) ← fixed? 2 0 b.offsetHour r
      let (minutes, r) ← fixed? 2 0 b.offsetMinute (← mark? ':' r)
      let total := hours * 60 + minutes
      if 24 * 60 < total then none
      else
        let sign := if c = '-' ∧ total ≠ 0 then "-" else "+"
        some (sign ++ padded 2 (total / 60) ++ ":" ++ padded 2 (total % 60), r)
    else none
  | [] => none

def timeOfDate? (b : ClockBounds) : Reader String
  | c :: r =>
    if c = 'T' ∨ c = 't' ∨ c = ' ' then do
      let (t, r) ← time? b r
      match offset? b r with
      | some (o, r) => some ("T" ++ t ++ o, r)
      | none => some ("T" ++ t, r)
    else none
  | [] => none

def datetime? (b : ClockBounds) : Reader String := fun cs =>
  match date? cs with
  | some (d, r) =>
    match timeOfDate? b r with
    | some (t, r) => some (d ++ t, r)
    | none => some (d, r)
  | none => time? b cs

def spelledDatetime? (text : String) : Option String :=
  match datetime? .quoted text.toList with
  | some (t, []) => some t
  | _ => none

end Sequencer.Toml
