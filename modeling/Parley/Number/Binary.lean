/-!
# Binary floating-point numbers

A double is read as a sign and a fraction `mantissa * 2 ^ exponent`, and is made from a
non-negative fraction of natural numbers by rounding to the nearest double, a half going to the
even neighbour. Both directions are exact arithmetic on natural numbers, so that reading
decimals, dividing integers and comparing an integer with a double all rest on one rounding rule.
-/

namespace Parley.Number

/-- The power `2 ^ n`. -/
def twoTo (n : Nat) : Nat := Nat.pow 2 n

/-- The power `10 ^ n`. -/
def tenTo (n : Nat) : Nat := Nat.pow 10 n

/-- What a double stands for. -/
inductive Binary where
  /-- Not a number. -/
  | undefined
  /-- An infinity. -/
  | infinite (negative : Bool)
  /-- The number `mantissa * 2 ^ exponent`, negated if `negative`. -/
  | finite (negative : Bool) (mantissa : Nat) (exponent : Int)
  deriving Repr, DecidableEq

/-- The exponent of the smallest positive double. -/
def leastExponent : Int := -1074

/-- Reads the fields of a double. -/
def Binary.ofFloat (x : Float) : Binary :=
  let bits : Nat := x.toBits.toNat
  let negative := bits / twoTo 63 == 1
  let biased : Nat := bits / twoTo 52 % twoTo 11
  let field : Nat := bits % twoTo 52
  if biased = 2047 then
    if field = 0 then .infinite negative else .undefined
  else if biased = 0 then .finite negative field leastExponent
  else .finite negative (field + twoTo 52) ((biased : Int) - 1075)

/-- The fraction `num / den` scaled by `2 ^ (-exponent)`, as a fraction again. -/
def scaled (num den : Nat) (exponent : Int) : Nat × Nat :=
  if exponent ≥ 0 then (num, den * twoTo exponent.toNat) else (num * twoTo (-exponent).toNat, den)

/-- The integer nearest to `num / den`, a half going to the even neighbour. -/
def roundHalfEven (num den : Nat) : Nat :=
  let q := num / den
  let r := num % den
  if 2 * r < den then q
  else if den < 2 * r then q + 1
  else if q % 2 = 0 then q else q + 1

/-- The exponent at which the fraction has 53 binary digits before the point, or the least
exponent if it is too small for that. -/
def bitExponent (num den : Nat) : Int :=
  let guess : Int := (Nat.log2 num : Int) - Nat.log2 den - 52
  let (n, d) := scaled num den guess
  let exact := if n / d < twoTo 52 then guess - 1 else guess
  if exact < leastExponent then leastExponent else exact

/-- The bits of the double nearest to `num / den` with its sign off; `none` if that is beyond the
largest double. -/
def nearestBits (num den : Nat) : Option Nat :=
  if num = 0 then some 0
  else
    let e := bitExponent num den
    let (n, d) := scaled num den e
    let q := roundHalfEven n d
    let (q, e) := if q = twoTo 53 then (twoTo 52, e + 1) else (q, e)
    if q < twoTo 52 then some q
    else if e > 971 then none
    else some ((e + 1075).toNat * twoTo 52 + (q - twoTo 52))

/-- Puts the sign bit on. -/
def withSign (negative : Bool) (bits : Nat) : Float :=
  Float.ofBits (UInt64.ofNat (if negative then bits + twoTo 63 else bits))

/-- The infinity of the given sign. -/
def infinity (negative : Bool) : Float :=
  withSign negative (2047 * twoTo 52)

/-- The undefined number. -/
def undefined : Float :=
  withSign false (2047 * twoTo 52 + twoTo 51)

/-- The double nearest to `± num / den`; `none` if it is beyond the largest double. -/
def ofFraction? (negative : Bool) (num den : Nat) : Option Float :=
  (nearestBits num den).map (withSign negative)

/-- The double nearest to an integer; `none` if it is beyond the largest double. -/
def ofInt? (n : Int) : Option Float :=
  ofFraction? (decide (n < 0)) n.natAbs 1

/-- Compares an integer with a double by value; `none` if the double is undefined. -/
def compareIntFloat (n : Int) (x : Float) : Option Ordering :=
  match Binary.ofFloat x with
  | .undefined => none
  | .infinite negative => some (if negative then .gt else .lt)
  | .finite negative m e =>
    let signed : Int := if negative then -(m : Int) else m
    if e ≥ 0 then some (compare n (signed * twoTo e.toNat))
    else some (compare (n * twoTo (-e).toNat) signed)

/-- The integer part of a double, toward zero; `none` if the double is not finite. -/
def truncate? (x : Float) : Option Int :=
  match Binary.ofFloat x with
  | .finite negative m e =>
    let size : Nat := if e ≥ 0 then m * twoTo e.toNat else m / twoTo (-e).toNat
    some (if negative then -(size : Int) else size)
  | _ => none

end Parley.Number
