import Parley.Data.Basic
import Parley.Fault
import Parley.Text.Pieces

/-!
# Reading and writing documents

Looking into data whose kind is not known beforehand. What is there is given, and what is missing
or of the wrong kind is a fault that names the kind it met.
-/

namespace Parley.Data

/-- The part of a datum under a key. -/
def part (d : Data) (key : String) : Except Fault Data :=
  match d with
  | .dict es =>
    match find? key es with
    | some v => .ok v
    | none => .error (.missingKey key)
  | .list _ => .error (.notIndexable "list")
  | .str _ => .error (.notIndexable "str")
  | d => .error (.notSubscriptable d.kind)

/-- The part of a dictionary under a key, or the given datum if there is none. -/
def getOr (d : Data) (key : String) (default : Data) : Except Fault Data :=
  match d with
  | .dict es => .ok ((find? key es).getD default)
  | d => .error (.noAttribute d.kind "get")

/-- Does `inner` occur in `outer`? -/
def occurs (inner : List Char) : List Char → Bool
  | [] => inner.isEmpty
  | c :: rest => Text.beginsWith inner (c :: rest) || occurs inner rest

/-- Is there a text among the items? -/
def holdsText (key : String) : List Data → Bool
  | [] => false
  | .str s :: rest => s == key || holdsText key rest
  | _ :: rest => holdsText key rest

/-- Does a datum hold a key: as a key, as an item, or as a piece of text? -/
def holds (d : Data) (key : String) : Except Fault Bool :=
  match d with
  | .dict es => .ok (hasKey key es)
  | .list items | .set items => .ok (holdsText key items)
  | .str s => .ok (occurs key.toList s.toList)
  | d => .error (.notContainer d.kind)

/-- Writes under a key. -/
def write (d : Data) (key : String) (value : Data) : Except Fault Data :=
  match d with
  | .dict es => .ok (.dict (put key value es))
  | .list _ => .error (.notIndexable "list")
  | d => .error (.notAssignable d.kind)

/-- The entries of a dictionary; `member` is the word for what was asked of it. -/
def entries (d : Data) (member : String) : Except Fault Entries :=
  match d with
  | .dict es => .ok es
  | d => .error (.noAttribute d.kind member)

/-- The items of a datum that can be gone through. -/
def items (d : Data) : Except Fault (List Data) :=
  match d with
  | .list xs | .set xs => .ok xs
  | .dict es => .ok (es.map fun e => .str e.1)
  | .str s => .ok (s.toList.map fun c => .str c.toString)
  | .bytes bs => .ok (bs.map fun b => .int b.toNat)
  | d => .error (.notIterable d.kind)

/-- The text that a datum is; `member` is the word for what was asked of it. -/
def asText (d : Data) (member : String) : Except Fault String :=
  match d with
  | .str s => .ok s
  | d => .error (.noAttribute d.kind member)

end Parley.Data
