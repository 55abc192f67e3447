import Parley.Text.Ranges

/-!
# Decimal digits

The digits zero to nine of all scripts.
-/

namespace Parley.Text

/-- Decimal digits outside ASCII. -/
def digitBoundaries : List Nat :=
  rising 0
    [ 1632, 10, 134, 10, 198, 10, 412, 10, 118, 10, 118, 10, 118, 10, 118, 10, 118, 10, 118, 10,
      118, 10, 118, 10, 118, 10, 96, 10, 118, 10, 70, 10, 278, 10, 70, 10, 1862, 10, 38, 10, 300,
      10, 128, 10, 166, 10, 6, 10, 182, 10, 86, 10, 134, 10, 6, 10, 35270, 10, 678, 10, 38, 10, 198,
      10, 22, 10, 86, 10, 406, 10, 21270, 10, 1414, 10, 2182, 10, 812, 10, 128, 10, 60, 10, 144, 10,
      278, 10, 342, 10, 118, 10, 374, 10, 102, 10, 102, 10, 422, 10, 102, 10, 758, 10, 246, 10, 70,
      10, 19638, 10, 86, 10, 134, 10, 27764, 50, 2368, 10, 422, 10, 1622, 10, 4758, 10 ]

/-- Is this a decimal digit of some script? -/
def isDecimal (c : Char) : Bool :=
  if c.toNat < 0x80 then c.isDigit else inRanges digitBoundaries c.toNat

/-- The distance from the beginning of the range that holds a number, if one does. -/
def placeInRanges : List Nat → Nat → Option Nat
  | lo :: hi :: rest, n =>
    if n < lo then none else if n < hi then some (n - lo) else placeInRanges rest n
  | _, _ => none

/-- The value of a decimal digit of some script. Every range holds whole sets of digits, each from
zero to nine. -/
def decimalValue? (c : Char) : Option Nat :=
  if c.toNat < 0x80 then if c.isDigit then some (c.toNat - '0'.toNat) else none
  else (placeInRanges digitBoundaries c.toNat).map (· % 10)

end Parley.Text
