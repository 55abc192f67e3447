/-!
# Sets of characters written as ranges

A set of code points is kept as the rising list of its boundaries: the first number opens a
range, the second closes it (and is itself outside), and so on. The classes of letters and
digits that the shell needs beyond ASCII are kept in this form.
-/

namespace Parley.Text

/-- Membership in a set given by its rising boundaries. -/
def inRanges : List Nat → Nat → Bool
  | lo :: hi :: rest, n => if n < lo then false else if n < hi then true else inRanges rest n
  | _, _ => false

/-- The rising list of numbers with the given gaps before them. Long lists of boundaries are written
in this way. -/
def rising : Nat → List Nat → List Nat
  | _, [] => []
  | start, gap :: rest => (start + gap) :: rising (start + gap) rest

end Parley.Text
