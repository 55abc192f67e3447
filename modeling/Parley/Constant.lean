import Parley.Data.Sets
import Parley.Text.Pieces
import Parley.Time.Instant
import Parley.Traced

/-!
# Constants

The values that have no parts which can change: null, truth values, numbers, texts, instants and
sets. They are compared by content and never by place.

Writing a constant can fail: an integer with more digits than `Number.digitLimit` has no text, and
a split can leave a place without any text behind (`Constant.noText`).
-/

namespace Parley

/-- A value without parts that can change. -/
inductive Constant where
  | null
  | bool (value : Bool)
  | int (value : Int)
  | float (value : Float)
  | text (value : String)
  /-- The place of a text where a split found none. -/
  | noText
  | time (value : Instant)
  | set (members : List Data)

namespace Constant

instance : Inhabited Constant := ⟨.null⟩

/-- The name of the kind of a constant. -/
def label : Constant → String
  | .null => "Null"
  | .bool _ => "Boolean"
  | .int _ => "Integer"
  | .float _ => "Float"
  | .text _ | .noText => "String"
  | .time _ => "Time"
  | .set _ => "Set"

/-- The digits of an integer, if they are not too many. -/
def intText (n : Int) : Except Fault String :=
  if n.natAbs < Number.tenTo Number.digitLimit then .ok (toString n) else .error .tooLongToWrite

/-- A text as it is written in a program, apart from quotes and backslashes. -/
def quotedText (s : String) : String :=
  "\"" ++ Text.replaceAll "\n" "\\n" s ++ "\""

/-- A member of a set as it is pasted into text. -/
def memberText : Data → Except Fault String
  | .int n => intText n
  | d => .ok d.text

/-- A constant as the shell shows it. -/
def shown : Constant → Except Fault String
  | .null => .ok "null"
  | .bool b => .ok (if b then "true" else "false")
  | .int n => intText n
  | .float x => .ok (Number.floatText x)
  | .text s => .ok (quotedText s)
  | .noText => .error (.noAttribute "NoneType" "replace")
  | .time t => .ok ("<" ++ t.spaced ++ ">")
  | .set members => do
    let texts ← members.mapM memberText
    .ok ("\x7b" ++ Text.joinWith ", " texts ++ "\x7d")

/-- A constant as it is pasted into text. -/
def pasted : Constant → Except Fault String
  | .text s => .ok s
  | .noText => .error (.textResult "NoneType")
  | .time t => .ok t.iso
  | c => c.shown

/-- The beginning of a text that is noted when it is written as JSON. -/
def noted (s : String) : String :=
  String.ofList (s.toList.take 120)

/-- A constant as JSON. In texts only line feeds and tabs are escaped. -/
def json : Constant → Traced Fault String
  | .text s => do
    Traced.note ("STRING TO JSON  " ++ noted s)
    let escaped := Text.replaceAll "\t" "\\t" (Text.replaceAll "\n" "\\n" s)
    Traced.note ("          JSON  " ++ noted escaped)
    pure ("\"" ++ escaped ++ "\"")
  | .noText => Traced.fail (.notSubscriptable "NoneType")
  | c => Traced.ofExcept c.shown

/-- The datum of a constant. An instant is a text there. -/
def data : Constant → Data
  | .null | .noText => .null
  | .bool b => .bool b
  | .int n => .int n
  | .float x => .float x
  | .text s => .str s
  | .time t => .str t.spaced
  | .set members => .set members

/-- Is the constant of this type? -/
def hasType (type : String) (c : Constant) : Bool :=
  type == "any" ||
    match c with
    | .null => type == "null"
    | .bool _ => type == "boolean"
    | .int _ => type == "integer" || type == "number"
    | .float _ => type == "float" || type == "number"
    | .text _ | .noText => type == "string"
    | .time _ => type == "time"
    | .set _ => type == "set"

/-- Are two constants of one kind with one content? -/
def equal : Constant → Constant → Bool
  | .null, .null => true
  | .bool a, .bool b => a == b
  | .int a, .int b => a == b
  | .float a, .float b => a == b
  | .text a, .text b => a == b
  | .noText, .noText => true
  | .time a, .time b => a.micros == b.micros
  | .set a, .set b => Data.sameSet a b
  | _, _ => false

/-- Does the constant count as true? Only null, zero and false do not. -/
def truthy : Constant → Bool
  | .null => false
  | .bool b => b
  | .int n => n != 0
  | .float x => x != 0.0
  | _ => true

end Constant

end Parley
