import Parley.Data.Sets
import Parley.Markup.Node
import Parley.Text.Pieces

/-!
# The data of a document

Scalars that are written plainly are read for what they look like: null, truth values, integers in
several bases, decimals. Everything else is text, as is everything in quotes. A mapping that is marked
as a set gives the set of its keys.

The shell leaves the reading of documents to a library. The modules of `Parley.Markup` stand in for
that library, for the documents that describe services.
-/

namespace Parley.Markup

/-- The words for truth values. -/
def truthWords : List (String × Bool) :=
  [ ("yes", true), ("Yes", true), ("YES", true), ("no", false), ("No", false), ("NO", false),
    ("true", true), ("True", true), ("TRUE", true), ("false", false), ("False", false),
    ("FALSE", false), ("on", true), ("On", true), ("ON", true), ("off", false), ("Off", false),
    ("OFF", false) ]

/-- The words for null. -/
def nullWords : List String :=
  ["", "~", "null", "Null", "NULL"]

/-- The sign at the beginning of a number, and the rest. -/
def signOf : List Char → Bool × List Char
  | '-' :: rest => (true, rest)
  | '+' :: rest => (false, rest)
  | cs => (false, cs)

/-- Is the character a digit or an underscore? -/
def isDigitOrLine (c : Char) : Bool :=
  c.isDigit || c == '_'

/-- Digits in a base, underscores passed over. -/
def digitsValue (base : Nat) (cs : List Char) : Nat :=
  (cs.filter (· != '_')).foldl (fun a c => a * base + (Json.hexValue? c).getD 0) 0

/-- Is this a group of at most two digits below 60? -/
def isSixty : List Char → Bool
  | [a] => a.isDigit
  | [a, b] => '0' ≤ a && a ≤ '5' && b.isDigit
  | _ => false

/-- The text between the characters `:`. -/
def colonParts (cs : List Char) : List (List Char) :=
  Text.cutAt ':' cs

/-- A positive integer without a sign. -/
def natural? (cs : List Char) : Option Nat :=
  match cs with
  | '0' :: 'b' :: digits =>
    if !digits.isEmpty && digits.all (fun c => c == '0' || c == '1' || c == '_') then
      some (digitsValue 2 digits)
    else none
  | '0' :: 'x' :: digits =>
    if !digits.isEmpty && digits.all (fun c => isHexDigit c || c == '_') then
      some (digitsValue 16 digits)
    else none
  | ['0'] => some 0
  | '0' :: digits =>
    if digits.all (fun c => ('0' ≤ c && c ≤ '7') || c == '_') then some (digitsValue 8 digits)
    else none
  | c :: _ =>
    if !c.isDigit then none
    else
      match colonParts cs with
      | [digits] => if digits.all isDigitOrLine then some (digitsValue 10 digits) else none
      | first :: rest =>
        if first.all isDigitOrLine && rest.all isSixty then
          some (rest.foldl (fun a p => a * 60 + digitsValue 10 p) (digitsValue 10 first))
        else none
      | [] => none
  | [] => none

/-- An integer. -/
def integer? (cs : List Char) : Option Int :=
  let (negative, rest) := signOf cs
  (natural? rest).map fun n => if negative then -(n : Int) else n

/-- The exponent of a decimal: a letter, a sign and digits, or nothing. -/
def exponent? : List Char → Option Int
  | [] => some 0
  | e :: sign :: digits =>
    if (e == 'e' || e == 'E') && (sign == '+' || sign == '-') && !digits.isEmpty &&
        digits.all Char.isDigit then
      let n := Number.digitsValue digits
      some (if sign == '-' then -(n : Int) else n)
    else none
  | _ => none

/-- A decimal: digits with a point among them, and perhaps an exponent. -/
def decimal? (cs : List Char) : Option Float :=
  let (negative, rest) := signOf cs
  let signed := rest.length != cs.length
  let rest' := String.ofList rest
  if rest' == ".inf" || rest' == ".Inf" || rest' == ".INF" then some (Number.infinity negative)
  else if !signed && (rest' == ".nan" || rest' == ".NaN" || rest' == ".NAN") then
    some Number.undefined
  else
    let whole := rest.takeWhile isDigitOrLine
    match rest.dropWhile isDigitOrLine with
    | '.' :: after =>
      let fraction := after.takeWhile isDigitOrLine
      let begins :=
        match whole, fraction with
        | c :: _, _ => c.isDigit
        | [], c :: _ => c.isDigit && !signed
        | [], [] => false
      match begins, exponent? (after.dropWhile isDigitOrLine) with
      | true, some e =>
        let w := whole.filter (· != '_')
        let f := fraction.filter (· != '_')
        some (Number.ofDecimal negative (Number.digitsValue (w ++ f)) (e - f.length))
      | _, _ => none
    | _ => none

/-- The datum of a plain scalar. -/
def plainData (text : String) : Data :=
  if nullWords.contains text then .null
  else
    match truthWords.lookup text with
    | some b => .bool b
    | none =>
      match integer? text.toList with
      | some n => .int n
      | none =>
        match decimal? text.toList with
        | some x => .float x
        | none => .str text

/-- What all tags of the usual kinds begin with. -/
def tagBase : String := "tag:yaml.org,2002:"

/-- The datum of a scalar. -/
def scalarData (source : Source) (text : String) (plain : Bool) (tag : Option String)
    (start : Mark) : Except Problem Data :=
  match tag with
  | none => .ok (if plain then plainData text else .str text)
  | some "!" => .ok (.str text)
  | some t =>
    if t == tagBase ++ "str" then .ok (.str text)
    else if t == tagBase ++ "null" then .ok .null
    else if t == tagBase ++ "int" || t == tagBase ++ "float" || t == tagBase ++ "bool" then
      .ok (plainData text)
    else
      .error (problem source "ConstructorError" none
        ("could not determine a constructor for the tag " ++ Text.quoted t) start)

/-- The place of a node. -/
def Node.start : Node → Mark
  | .scalar _ _ _ m => m
  | .sequence _ _ m => m
  | .mapping _ _ m => m

/-- Entries that are taken over from other mappings: those that are not there already. -/
def mergeInto (own merged : Data.Entries) : Data.Entries :=
  merged.foldl (fun acc e => if Data.hasKey e.1 acc then acc else acc ++ [e]) own

/-- The entries that a merged datum gives. -/
def mergedEntries : Data → Data.Entries
  | .dict es => es
  | .list items =>
    items.foldl (fun acc d =>
      match d with
      | .dict es => mergeInto acc es
      | _ => acc) []
  | _ => []

mutual

/-- The datum of a node. -/
def Node.toData (source : Source) : Node → Except Problem Data
  | .scalar text plain tag start => scalarData source text plain tag start
  | .sequence items _ _ => do
    let ds ← nodesToData source items
    .ok (.list ds)
  | .mapping entries tag start => do
    let (own, merged) ← entriesToData source start entries
    if tag == some (tagBase ++ "set") then
      .ok (.set ((merged.map (fun e => Data.str e.1) ++ own.map Prod.fst).foldl Data.addMember []))
    else .ok (.dict (Data.putAll (merged ++ own.map fun e => (e.1.text, e.2)) []))

/-- The data of several nodes. -/
def nodesToData (source : Source) : List Node → Except Problem (List Data)
  | [] => .ok []
  | n :: rest => do
    let d ← Node.toData source n
    let more ← nodesToData source rest
    .ok (d :: more)

/-- The data of the entries of a mapping, and the entries that are merged into it. -/
def entriesToData (source : Source) (start : Mark) :
    List (Node × Node) → Except Problem (List (Data × Data) × Data.Entries)
  | [] => .ok ([], [])
  | (k, v) :: rest => do
    let key ← Node.toData source k
    let value ← Node.toData source v
    let (own, merged) ← entriesToData source start rest
    match k, key with
    | .scalar "<<" true none _, _ => .ok (own, mergeInto (mergedEntries value) merged)
    | _, .list _ | _, .dict _ =>
      .error (problem source "ConstructorError"
        (some ("while constructing a mapping", some start)) "found unhashable key" k.start)
    | _, key => .ok ((key, value) :: own, merged)

end

/-- May the character stand in a document? -/
def isAllowed (c : Char) : Bool :=
  let n := c.toNat
  n == 0x09 || n == 0x0A || n == 0x0D || (0x20 ≤ n && n ≤ 0x7E) || n == 0x85 ||
    (0xA0 ≤ n && n ≤ 0xD7FF) || (0xE000 ≤ n && n ≤ 0xFFFD) || 0x10000 ≤ n

/-- The complaint about a character that may not stand in a document. -/
def unacceptable (c : Char) (position : Nat) : Problem :=
  ⟨"ReaderError",
    "unacceptable character #x" ++ String.ofList (Text.hexDigits 4 c.toNat) ++
      s!": special characters are not allowed\n  in \"<unicode string>\", position {position}"⟩

/-- The datum of a document, if there is no problem with it; null for an empty one. -/
def readSound (text : String) : Except Problem Data :=
  let source := text.toList.toArray
  match text.toList.findIdx? fun c => !isAllowed c with
  | some i => .error (unacceptable (charAt source i) i)
  | none => do
    match ← compose source with
    | some node => node.toData source
    | none => .ok .null

/-- The datum of a document. -/
def read (text : String) : Except Fault Data :=
  (readSound text).mapError Problem.fault

end Parley.Markup
