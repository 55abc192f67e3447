import Parley.Number.Text
import Parley.Text.Quoted

/-!
# Documents

The data that service definitions, responses and saved settings are made of: what a JSON or YAML
document can hold, and the bytes and sets that come up besides. The entries of a dictionary keep
the order in which their keys first came.
-/

namespace Parley

/-- The data of a document. -/
inductive Data where
  | null
  | bool (value : Bool)
  | int (value : Int)
  | float (value : Float)
  | str (value : String)
  | bytes (value : List UInt8)
  | list (items : List Data)
  | dict (entries : List (String × Data))
  | set (members : List Data)

instance : Inhabited Data := ⟨.null⟩

namespace Data

/-- The entries of a dictionary. -/
abbrev Entries := List (String × Data)

/-- Looks a key up. -/
def find? (key : String) : Entries → Option Data
  | [] => none
  | (k, v) :: rest => if k = key then some v else find? key rest

/-- Is there an entry with this key? -/
def hasKey (key : String) (es : Entries) : Bool :=
  (find? key es).isSome

/-- Writes an entry: in the place of the old one if the key is there, at the end otherwise. -/
def put (key : String) (value : Data) : Entries → Entries
  | [] => [(key, value)]
  | (k, v) :: rest => if k = key then (k, value) :: rest else (k, v) :: put key value rest

/-- The value just written is the one found. -/
@[simp] theorem find?_put_self (key : String) (value : Data) (es : Entries) :
    find? key (put key value es) = some value := by
  induction es with
  | nil => simp [put, find?]
  | cons e rest ih =>
    obtain ⟨k, v⟩ := e
    by_cases h : k = key <;> simp [put, find?, h, ih]

/-- Writing one key leaves the others alone. -/
theorem find?_put_of_ne {key other : String} (h : other ≠ key) (value : Data) (es : Entries) :
    find? other (put key value es) = find? other es := by
  induction es with
  | nil => simp [put, find?, h.symm]
  | cons e rest ih =>
    obtain ⟨k, v⟩ := e
    by_cases hk : k = key
    · subst hk; simp [put, find?, h.symm]
    · by_cases ho : k = other
      · subst ho; simp [put, find?, h]
      · simp [put, find?, hk, ho, ih]

/-- Writes several entries, one after the other. -/
def putAll (new es : Entries) : Entries :=
  new.foldl (fun acc e => put e.1 e.2 acc) es

/-- The word for the kind of a datum in messages. -/
def kind : Data → String
  | .null => "NoneType"
  | .bool _ => "bool"
  | .int _ => "int"
  | .float _ => "float"
  | .str _ => "str"
  | .bytes _ => "bytes"
  | .list _ => "list"
  | .dict _ => "dict"
  | .set _ => "set"

/-- Does the datum count as true? Empty and zero data do not. -/
def truthy : Data → Bool
  | .null => false
  | .bool b => b
  | .int n => n != 0
  | .float x => x != 0.0
  | .str s => !s.isEmpty
  | .bytes b => !b.isEmpty
  | .list xs => !xs.isEmpty
  | .dict es => !es.isEmpty
  | .set xs => !xs.isEmpty

mutual

/-- Data as it is shown inside other data: text in quotes, lists in brackets. -/
def shown : Data → String
  | .null => "None"
  | .bool b => if b then "True" else "False"
  | .int n => toString n
  | .float x => Number.floatText x
  | .str s => Text.quoted s
  | .bytes b => Text.quotedBytes b
  | .list xs => "[" ++ shownItems xs ++ "]"
  | .dict es => "\x7b" ++ shownEntries es ++ "\x7d"
  | .set [] => "set()"
  | .set (x :: xs) => "\x7b" ++ shownItems (x :: xs) ++ "\x7d"

/-- Items with commas between them. -/
def shownItems : List Data → String
  | [] => ""
  | [x] => x.shown
  | x :: y :: rest => x.shown ++ ", " ++ shownItems (y :: rest)

/-- Entries with commas between them. -/
def shownEntries : List (String × Data) → String
  | [] => ""
  | [(k, v)] => Text.quoted k ++ ": " ++ v.shown
  | (k, v) :: e :: rest => Text.quoted k ++ ": " ++ v.shown ++ ", " ++ shownEntries (e :: rest)

end

/-- Data as it is pasted into text: text as it is, everything else as it is shown. -/
def text : Data → String
  | .str s => s
  | d => d.shown

end Data

end Parley
