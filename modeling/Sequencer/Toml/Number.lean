import Sequencer.Integer
import Sequencer.Toml.Datetime

/-! Numbers of TOML documents. -/

namespace Sequencer.Toml

/-- Digits of the given kind, where one underscore may stand between two of them. -/
def digitRun (ok : Char → Bool) (afterDigit : Bool) : Reader (List Char)
  | [] => if afterDigit then some ([], []) else none
  | c :: r =>
    if ok c then (digitRun ok true r).map fun (ds, rest) => (c :: ds, rest)
    else if c = '_' ∧ afterDigit then digitRun ok false r
    else if afterDigit then some ([], c :: r)
    else none

def sign : List Char → Bool × List Char
  | '-' :: r => (true, r)
  | '+' :: r => (false, r)
  | cs => (false, cs)

/-- Decimal digits without a leading zero, unless zero is all. -/
def wholeDigits : Reader (List Char)
  | '0' :: r => some (['0'], r)
  | cs => digitRun isDigit false cs

def based? (base : Nat) (ok : Char → Bool) (cs : List Char) : Option (Value × List Char) := do
  let (ds, r) ← digitRun ok false cs
  let n : Int := ofDigits base ds
  if inWord n then some (.integer n, r) else none

def integer? : Reader Value
  | '0' :: 'x' :: r => based? 16 (fun c => (hexValue? c).isSome) r
  | '0' :: 'o' :: r => based? 8 (fun c => '0' ≤ c && c ≤ '7') r
  | '0' :: 'b' :: r => based? 2 (fun c => c = '0' || c = '1') r
  | cs => do
    let (negative, cs) := sign cs
    let (ds, r) ← wholeDigits cs
    let n : Int := ofDigits 10 ds
    let n := if negative then -n else n
    if inWord n then some (.integer n, r) else none

def exponent? : List Char → Option (Int × List Char)
  | c :: r =>
    if c = 'e' ∨ c = 'E' then do
      let (negative, r) := sign r
      let (ds, r) ← digitRun isDigit false r
      let n : Int := ofDigits 10 ds
      some (if negative then -n else n, r)
    else some (0, c :: r)
  | [] => some (0, [])

def word (w : String) (cs : List Char) : Option (List Char) :=
  if w.toList.isPrefixOf cs then some (cs.drop w.length) else none

def specialFloat? (cs : List Char) : Option (Value × List Char) :=
  let (negative, cs) := sign cs
  match word "inf" cs, word "nan" cs with
  | some r, _ => some (.float (.infinite negative), r)
  | none, some r => some (.float .nan, r)
  | none, none => none

/-- A number with a fraction or an exponent. One that is too large is refused, but only if it is
positive. -/
def decimalFloat? (cs : List Char) : Option (Value × List Char) := do
  let (negative, cs) := sign cs
  let (whole, r) ← wholeDigits cs
  let (fraction, r) ← match r with
    | '.' :: r => (digitRun isDigit false r).map fun (ds, r) => (some ds, r)
    | r => some (none, r)
  let (e, r') ← exponent? r
  if fraction.isNone ∧ r'.length = r.length then none
  else
    let fraction := fraction.getD []
    match Decimal.round negative (ofDigits 10 (whole ++ fraction)) (e - fraction.length) with
    | .infinite false => none
    | x => some (.float x, r')

/-- A date or time, a float or an integer, the first that fits. -/
def number? (cs : List Char) : Option (Value × List Char) :=
  ((datetime? .bare cs).map fun (t, r) => (.datetime t, r)).or
    ((decimalFloat? cs).or ((specialFloat? cs).or (integer? cs)))

end Sequencer.Toml
