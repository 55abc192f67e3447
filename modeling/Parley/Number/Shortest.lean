import Parley.Number.Binary

/-!
# The shortest decimal of a double

Every real number near enough to a double is rounded to it, and these numbers form an interval.
The shortest decimal of a double is the one with the fewest digits in that interval, and of those
the one nearest to the double.
-/

namespace Parley.Number

/-- The number `digits * 10 ^ exponent`. -/
structure Decimal where
  digits : Nat
  exponent : Int
  deriving Repr, DecidableEq

/-- Takes the trailing zeros off, as far as the given number of steps goes. -/
def Decimal.stripZeros : Nat → Decimal → Decimal
  | 0, d => d
  | fuel + 1, d =>
    if d.digits ≠ 0 ∧ d.digits % 10 = 0 then
      stripZeros fuel ⟨d.digits / 10, d.exponent + 1⟩
    else d

/-- The fraction of natural numbers `n * 10 ^ e` with a denominator. -/
def tenFold (n : Nat) (e : Int) : Nat × Nat :=
  if e ≥ 0 then (n * tenTo e.toNat, 1) else (n, tenTo (-e).toNat)

/-- An interval of fractions over a common denominator: the numbers that are rounded to
`middle / scale`. -/
structure Interval where
  low : Nat
  middle : Nat
  high : Nat
  scale : Nat
  /-- Whether the ends are rounded to the middle too. -/
  closed : Bool

/-- The numbers that are rounded to the double `mantissa * 2 ^ exponent`. The gap below a power of
two is half as wide as the gap above it. -/
def Interval.around (mantissa : Nat) (exponent : Int) : Interval :=
  let narrow := mantissa = twoTo 52 ∧ exponent > leastExponent
  let closed := mantissa % 2 == 0
  let low := if narrow then 4 * mantissa - 1 else 4 * mantissa - 2
  if exponent ≥ 2 then
    let unit := twoTo (exponent - 2).toNat
    ⟨low * unit, 4 * mantissa * unit, (4 * mantissa + 2) * unit, 1, closed⟩
  else
    ⟨low, 4 * mantissa, 4 * mantissa + 2, twoTo (2 - exponent).toNat, closed⟩

/-- Is the decimal `n * 10 ^ e` in the interval? -/
def Interval.contains (i : Interval) (n : Nat) (e : Int) : Bool :=
  let (num, den) := tenFold n e
  let x := num * i.scale
  if i.closed then decide (i.low * den ≤ x) && decide (x ≤ i.high * den)
  else decide (i.low * den < x) && decide (x < i.high * den)

/-- The number of digits before the point of `num / den`: the least `k ≥ start` with
`num / den < 10 ^ k`, as far as the given number of steps goes. -/
def pointFrom : Nat → Nat → Nat → Int → Int
  | 0, _, _, k => k
  | fuel + 1, num, den, k =>
    let (p, q) := tenFold 1 k
    if num * q < p * den then k else pointFrom fuel num den (k + 1)

/-- The number of digits before the point of a positive fraction; zero or less for fractions
below one tenth. -/
def pointPlace (num den : Nat) : Int :=
  let bits : Int := (Nat.log2 num : Int) - Nat.log2 den
  pointFrom 8 num den ((bits - 1) * 30103 / 100000 - 1)

/-- Of the two neighbours of the middle with the exponent `e`, the nearer one that is in the
interval; of two equally near ones the even one. -/
def Interval.neighbour? (i : Interval) (e : Int) : Option Nat :=
  let (p, q) := tenFold 1 e
  let num := i.middle * q
  let den := i.scale * p
  let below := num / den
  let rest := num % den
  let preferAbove := if den < 2 * rest then true else if 2 * rest < den then false
    else below % 2 == 1
  let (first, second) := if preferAbove then (below + 1, below) else (below, below + 1)
  if i.contains first e then some first
  else if i.contains second e then some second
  else none

/-- The first of the grids with `n`, `n + 1`, … digits that has a decimal in the interval, as far
as the given number of steps goes. -/
def Interval.shortestFrom (i : Interval) (point : Int) : Nat → Nat → Decimal
  | 0, n => ⟨i.middle / i.scale, point - n⟩
  | fuel + 1, n =>
    match i.neighbour? (point - n) with
    | some d => ⟨d, point - n⟩
    | none => i.shortestFrom point fuel (n + 1)

/-- The shortest decimal of the double `mantissa * 2 ^ exponent`. Seventeen digits always
suffice. -/
def Decimal.shortest (mantissa : Nat) (exponent : Int) : Decimal :=
  if mantissa = 0 then ⟨0, 0⟩
  else
    let i := Interval.around mantissa exponent
    (i.shortestFrom (pointPlace i.middle i.scale) 17 1).stripZeros 20

end Parley.Number
