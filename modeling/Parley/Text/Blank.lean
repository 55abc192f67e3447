import Parley.Text.Ranges

/-!
# Blank characters

The characters that separate tokens: the ASCII blanks, the four information separators, and the
spaces and line ends of other scripts.
-/

namespace Parley.Text

/-- The ranges of blank characters. -/
def blankBoundaries : List Nat :=
  [ 0x9, 0xe, 0x1c, 0x21, 0x85, 0x86, 0xa0, 0xa1, 0x1680, 0x1681, 0x2000, 0x200b,
    0x2028, 0x202a, 0x202f, 0x2030, 0x205f, 0x2060, 0x3000, 0x3001 ]

/-- Is this a blank? -/
def isBlank (c : Char) : Bool :=
  inRanges blankBoundaries c.toNat

/-- The text after its leading blanks. -/
def skipBlanks (cs : List Char) : List Char :=
  cs.dropWhile isBlank

/-- Skipping blanks drops characters and invents none. -/
theorem length_skipBlanks_le (cs : List Char) : (skipBlanks cs).length ≤ cs.length :=
  (List.dropWhile_suffix isBlank).length_le

/-- The text without blanks at either end. -/
def trimBlanks (cs : List Char) : List Char :=
  (skipBlanks (skipBlanks cs).reverse).reverse

end Parley.Text
