/-! Binary64 numbers as the decimals that name them. A number is kept as the shortest decimal
that reads back as it, so two numbers are equal exactly when their decimals are, and no
machine float takes part in any definition. -/

namespace Sequencer

/-- The value `digits · 10 ^ exponent`, with its sign; zero has a sign of its own. -/
structure Decimal where
  negative : Bool := false
  digits : Nat
  exponent : Int := 0
deriving DecidableEq, Repr

inductive Real where
  | finite (value : Decimal)
  | infinite (negative : Bool)
  | nan
deriving DecidableEq, Repr

namespace Decimal

def two (n : Nat) : Nat := Nat.pow 2 n

def ten (n : Nat) : Nat := Nat.pow 10 n

/-- Moves trailing zeros of the digits into the exponent; `fuel` bounds how many. -/
def stripZeros : Nat → Nat → Int → Nat × Int
  | 0, d, e => (d, e)
  | fuel + 1, d, e =>
    if d ≠ 0 ∧ d % 10 = 0 then stripZeros fuel (d / 10) (e + 1) else (d, e)

/-- The nonnegative rational `num / den · 2 ^ q` seen from scale `q`. -/
def scaled (num den : Nat) (q : Int) : Nat × Nat :=
  if q < 0 then (num * two q.natAbs, den) else (num, den * two q.toNat)

/-- The quotient rounded to the nearest integer, a half to the even neighbour. -/
def roundHalfEven (num den : Nat) : Nat :=
  let floor := num / den
  let twice := 2 * (num % den)
  if twice < den then floor
  else if den < twice then floor + 1
  else if floor % 2 = 0 then floor else floor + 1

/-- The binary64 significand and scale nearest to `num / den`: the scale gives the
significand 53 bits, but is never below that of the subnormal numbers. -/
def nearest (num den : Nat) : Nat × Int :=
  let guess : Int := (Nat.log2 num : Int) - (Nat.log2 den : Int) - 52
  let fits (q : Int) : Bool := let (n, d) := scaled num den q; decide (n / d < two 53)
  let q := if fits (guess - 1) then guess - 1 else if fits guess then guess else guess + 1
  let q := max q (-1074)
  let (n, d) := scaled num den q
  let m := roundHalfEven n d
  if m = two 53 then (two 52, q + 1) else (m, q)

/-- The decimal grid point `d · 10 ^ t` lies strictly between, or on an allowed end of, the
reals that round to `m · 2 ^ q`; all three are compared as multiples of one small unit. -/
def readsBack (m : Nat) (q : Int) (d : Nat) (t : Int) : Bool :=
  -- In units of 2 ^ (q - 2) · 10 ^ (min t 0): the value is 4m and the gaps are 2, or 1 below
  -- a power of two.
  let below : Nat := if m = two 52 ∧ -1074 < q then 4 * m - 1 else 4 * m - 2
  let above : Nat := 4 * m + 2
  let (l, r) : Nat × Nat :=
    let u : Int := q - 2
    let dec := if 0 ≤ t then d * ten t.toNat else d
    let bin := if 0 ≤ t then 1 else ten t.natAbs
    if 0 ≤ u then (dec, bin * two u.toNat) else (dec * two u.natAbs, bin)
  let lo := below * r
  let hi := above * r
  if m % 2 = 0 then decide (lo ≤ l ∧ l ≤ hi) else decide (lo < l ∧ l < hi)

def overGrid (m : Nat) (q t : Int) : Nat × Nat :=
  let n := if 0 ≤ q then m * two q.toNat else m
  let d := if 0 ≤ q then 1 else two q.natAbs
  if 0 ≤ t then (n, d * ten t.toNat) else (n * ten t.natAbs, d)

/-- Tries the grids of `count`, `count + 1`, … digits and takes the first that has a point
reading back as `m · 2 ^ q`, the nearer one if it has two. `top` is one more than the
exponent of the leading digit. -/
def shortestFrom (m : Nat) (q top : Int) : Nat → Nat → Nat × Int
  | 0, count =>
    let t := top - count
    let (n, d) := overGrid m q t
    (roundHalfEven n d, t)
  | fuel + 1, count =>
    let t := top - count
    let (n, d) := overGrid m q t
    let low := n / d
    let twice := 2 * (n % d)
    let lowOk := decide (low ≠ 0) && readsBack m q low t
    let highOk := readsBack m q (low + 1) t
    if lowOk ∧ (¬ highOk ∨ twice < d ∨ (twice = d ∧ low % 2 = 0)) then (low, t)
    else if highOk then (low + 1, t)
    else shortestFrom m q top fuel (count + 1)

def digitCount : Nat → Nat → Nat
  | 0, _ => 0
  | fuel + 1, n => if n = 0 then 0 else digitCount fuel (n / 10) + 1

def size (n : Nat) : Nat := digitCount (Nat.log2 n + 1) n

/-- The shortest decimal that reads back as `m · 2 ^ q`. -/
def shortest (m : Nat) (q : Int) : Nat × Int :=
  if m = 0 then (0, 0)
  else
    let (n, d) := overGrid m q 0
    let top : Int := if d ≤ n then size (n / d) else 1 - (size (d / n) : Int)
    -- `top` may be one too large just below a power of ten, which costs one leading zero.
    let (digits, t) := shortestFrom m q top 17 1
    stripZeros 20 digits t

/-- The binary64 number nearest to a written decimal, as its shortest decimal. -/
def round (negative : Bool) (digits : Nat) (exponent : Int) : Real :=
  let magnitude : Int := size digits + exponent
  if digits = 0 ∨ magnitude < -330 then .finite { negative, digits := 0 }
  else if 310 < magnitude then .infinite negative
  else
    let num := if 0 ≤ exponent then digits * ten exponent.toNat else digits
    let den := if 0 ≤ exponent then 1 else ten exponent.natAbs
    let (m, q) := nearest num den
    if 971 < q then .infinite negative
    else
      let (d, e) := shortest m q
      .finite { negative, digits := d, exponent := e }

def leading (x : Decimal) : Int := (size x.digits : Int) - 1 + x.exponent

def sign (x : Decimal) : String := if x.negative then "-" else ""

/-- Digits and point only, however long, without a fraction of zero. -/
def positional (x : Decimal) : String :=
  let ds := Nat.repr x.digits
  if 0 ≤ x.exponent then
    x.sign ++
      (if x.digits = 0 then "0" else ds ++ String.ofList (List.replicate x.exponent.toNat '0'))
  else
    let places := x.exponent.natAbs
    let cs := ds.toList
    let cs := List.replicate (places + 1 - cs.length) '0' ++ cs
    let whole := cs.take (cs.length - places)
    let fraction := cs.drop (cs.length - places)
    x.sign ++ String.ofList whole ++ "." ++ String.ofList fraction

/-- Positional from `1e-5` below `1e16` with at least one fraction digit, otherwise one digit
before the point and an exponent. -/
def scientific (x : Decimal) : String :=
  if x.digits = 0 then x.sign ++ "0.0"
  else if -5 ≤ x.leading ∧ x.leading < 16 then
    if 0 ≤ x.exponent then x.positional ++ ".0" else x.positional
  else
    match (Nat.repr x.digits).toList with
    | [] => ""
    | c :: cs =>
      x.sign ++ String.singleton c ++ (if cs.isEmpty then "" else "." ++ String.ofList cs) ++
        "e" ++ toString x.leading

end Decimal
end Sequencer
