import Parley.Data.Basic
import Parley.Fault

/-!
# Sets of data

A set holds only data without parts. Numbers and truth values are the same member when they are
equal as numbers, and the first to come in stays.
-/

namespace Parley.Data

/-- The number that a datum is, if it is one. -/
def number? : Data → Option (Int ⊕ Float)
  | .bool b => some (.inl (if b then 1 else 0))
  | .int n => some (.inl n)
  | .float x => some (.inr x)
  | _ => none

/-- Are two numbers equal, whatever their kinds? -/
def sameNumber : Int ⊕ Float → Int ⊕ Float → Bool
  | .inl a, .inl b => a == b
  | .inr a, .inr b => a == b
  | .inl a, .inr b => Number.compareIntFloat a b == some .eq
  | .inr a, .inl b => Number.compareIntFloat b a == some .eq

/-- Are two data the same member of a set? -/
def same (a b : Data) : Bool :=
  match a, b with
  | .null, .null => true
  | .str s, .str t => s == t
  | .bytes s, .bytes t => s == t
  | a, b =>
    match a.number?, b.number? with
    | some x, some y => sameNumber x y
    | _, _ => false

/-- Can the datum be a member of a set? -/
def hashable : Data → Bool
  | .list _ | .dict _ | .set _ => false
  | _ => true

/-- Adds a member, unless it is there. -/
def addMember (members : List Data) (d : Data) : List Data :=
  if members.any (same d) then members else members ++ [d]

/-- The set of the given data; fails at the first that cannot be a member. -/
def toSet : List Data → List Data → Except Fault (List Data)
  | members, [] => .ok members
  | members, d :: rest =>
    if d.hashable then toSet (addMember members d) rest else .error (.unhashable d.kind)

/-- Do two sets have the same members? -/
def sameSet (a b : List Data) : Bool :=
  a.length == b.length && a.all fun x => b.any (same x)

end Parley.Data
