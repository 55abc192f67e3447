import Parley.Data.Basic
import Parley.Fault

/-!
# Reading JSON

A reader for JSON texts. Besides the standard form it takes `NaN`, `Infinity` and `-Infinity`; of
several entries with one key the last value counts, in the place of the first. A text that is
not JSON is refused with the problem and the place where it was met: the line, the column and
the number of characters before it.

The reader works on a `Cursor`, the rest of the text together with its place, and every step
takes one unit of a budget that is larger than the number of steps any text of that length can
need.
-/

namespace Parley.Json

/-- The rest of a text and the number of characters before it. -/
structure Cursor where
  place : Nat
  rest : List Char

/-- Moves over `n` characters. -/
def Cursor.skip (c : Cursor) (n : Nat) : Cursor :=
  ⟨c.place + n, c.rest.drop n⟩

/-- Why a text is refused. -/
inductive Problem where
  /-- The text breaks a rule at a place. -/
  | at (message : String) (place : Nat)
  /-- An integer has too many digits. -/
  | digits (count : Nat)

/-- The blanks that may stand between the parts of a text. -/
def isGap (c : Char) : Bool :=
  c == ' ' || c == '\t' || c == '\n' || c == '\r'

/-- Moves over blanks. -/
def skipGaps (c : Cursor) : Cursor :=
  let gaps := c.rest.takeWhile isGap
  c.skip gaps.length

/-- The value of a digit in base sixteen. -/
def hexValue? (c : Char) : Option Nat :=
  if c.isDigit then some (c.toNat - '0'.toNat)
  else if 'a' ≤ c ∧ c ≤ 'f' then some (c.toNat - 'a'.toNat + 10)
  else if 'A' ≤ c ∧ c ≤ 'F' then some (c.toNat - 'A'.toNat + 10)
  else none

/-- Reads exactly four digits in base sixteen. -/
def hexFour? : List Char → Option Nat
  | [a, b, c, d] => do
    let a ← hexValue? a
    let b ← hexValue? b
    let c ← hexValue? c
    let d ← hexValue? d
    pure (((a * 16 + b) * 16 + c) * 16 + d)
  | _ => none

/-- The character with a number. Half of a pair of codes is no character, and texts hold characters
only: the replacement character stands for it. -/
def charOf (n : Nat) : Char :=
  if n < 0xd800 ∨ (0xdfff < n ∧ n < 0x110000) then Char.ofNat n else Char.ofNat 0xfffd

/-- The character that a one-letter escape stands for. -/
def escape? : Char → Option Char
  | '"' => some '"'
  | '\\' => some '\\'
  | '/' => some '/'
  | 'b' => some '\x08'
  | 'f' => some '\x0c'
  | 'n' => some '\n'
  | 'r' => some '\r'
  | 't' => some '\t'
  | _ => none

/-- Reads an escape; the cursor stands after the backslash at `place`. -/
def readEscape (opening : Nat) (c : Cursor) : Except Problem (Char × Cursor) :=
  match c.rest with
  | [] => .error (.at "Unterminated string starting at" opening)
  | 'u' :: rest =>
    let bad : Problem := .at "Invalid \\uXXXX escape" c.place
    if rest.length ≤ 4 then .error bad
    else
      match hexFour? (rest.take 4) with
      | none => .error bad
      | some high =>
        let after := rest.drop 4
        if 0xd800 ≤ high ∧ high < 0xdc00 ∧ 6 < after.length ∧ after.take 2 = ['\\', 'u'] then
          match hexFour? ((after.drop 2).take 4) with
          | none => .error (.at "Invalid \\uXXXX escape" (c.place + 6))
          | some low =>
            if 0xdc00 ≤ low ∧ low < 0xe000 then
              .ok (charOf (0x10000 + (high - 0xd800) * 0x400 + (low - 0xdc00)), c.skip 11)
            else .ok (charOf high, c.skip 5)
        else .ok (charOf high, c.skip 5)
  | e :: _ =>
    match escape? e with
    | some ch => .ok (ch, c.skip 1)
    | none => .error (.at "Invalid \\escape" (c.place - 1))

/-- Reads the rest of a string whose opening quote stands at `opening`; `done` holds what has been
read, last character first. -/
def readString (opening : Nat) : Nat → List Char → Cursor → Except Problem (String × Cursor)
  | 0, _, _ => .error (.at "Unterminated string starting at" opening)
  | budget + 1, done, c =>
    match c.rest with
    | [] => .error (.at "Unterminated string starting at" opening)
    | '"' :: _ => .ok (String.ofList done.reverse, c.skip 1)
    | '\\' :: _ => do
      let (ch, c) ← readEscape opening (c.skip 1)
      readString opening budget (ch :: done) c
    | ch :: _ =>
      if ch.toNat < 0x20 then .error (.at "Invalid control character at" c.place)
      else readString opening budget (ch :: done) (c.skip 1)

/-- Splits a run of digits off. -/
def spanDigits (cs : List Char) : List Char × List Char :=
  (cs.takeWhile Char.isDigit, cs.dropWhile Char.isDigit)

/-- The digits before the point: none of several begins with zero. -/
def wholePart : List Char → Option (List Char × List Char)
  | '0' :: rest => some (['0'], rest)
  | cs =>
    match spanDigits cs with
    | ([], _) => none
    | parts => some parts

/-- The digits after a point, if a point with a digit follows. -/
def fractionPart : List Char → Option (List Char × List Char)
  | '.' :: rest =>
    match spanDigits rest with
    | ([], _) => none
    | parts => some parts
  | _ => none

/-- The exponent, if a letter `e` with digits follows: sign, digits and rest. -/
def exponentPart : List Char → Option (Bool × List Char × List Char)
  | e :: rest =>
    if e == 'e' || e == 'E' then
      let (negative, rest) := match rest with
        | '-' :: r => (true, r)
        | '+' :: r => (false, r)
        | r => (false, r)
      match spanDigits rest with
      | ([], _) => none
      | (ds, r) => some (negative, ds, r)
    else none
  | [] => none

/-- Reads a number. -/
def readNumber (c : Cursor) : Except Problem (Data × Cursor) :=
  let (negative, body) := match c.rest with
    | '-' :: r => (true, r)
    | r => (false, r)
  match wholePart body with
  | none => .error (.at "Expecting value" c.place)
  | some (whole, rest) =>
    let (fraction, rest', isFloat) := match fractionPart rest with
      | some (ds, r) => (ds, r, true)
      | none => ([], rest, false)
    let (exponent, rest'', isFloat) : Int × List Char × Bool := match exponentPart rest' with
      | some (neg, ds, r) =>
        let n : Int := Number.digitsValue ds
        (if neg then -n else n, r, true)
      | none => (0, rest', isFloat)
    let after : Cursor := ⟨c.place + (c.rest.length - rest''.length), rest''⟩
    if isFloat then
      let n := Number.digitsValue (whole ++ fraction)
      .ok (.float (Number.ofDecimal negative n (exponent - fraction.length)), after)
    else if whole.length > Number.digitLimit then .error (.digits whole.length)
    else
      let n : Int := Number.digitsValue whole
      .ok (.int (if negative then -n else n), after)

/-- The words that stand for a value. -/
def words : List (List Char × Data) :=
  [ ("null".toList, .null), ("true".toList, .bool true), ("false".toList, .bool false),
    ("NaN".toList, .float Number.undefined),
    ("Infinity".toList, .float (Number.infinity false)),
    ("-Infinity".toList, .float (Number.infinity true)) ]

/-- The word that the text begins with, if it begins with one. -/
def word? (cs : List Char) : List (List Char × Data) → Option (Nat × Data)
  | [] => none
  | (w, d) :: rest => if w.isPrefixOf cs then some (w.length, d) else word? cs rest

mutual

/-- Reads a value. -/
def readValue : Nat → Cursor → Except Problem (Data × Cursor)
  | 0, c => .error (.at "Expecting value" c.place)
  | budget + 1, c =>
    match c.rest with
    | '"' :: _ => do
      let (s, c') ← readString c.place (c.rest.length + 1) [] (c.skip 1)
      .ok (.str s, c')
    | '\x7b' :: _ =>
      let inner := skipGaps (c.skip 1)
      match inner.rest with
      | '\x7d' :: _ => .ok (.dict [], inner.skip 1)
      | _ => do
        let (es, c') ← readEntries budget [] inner
        .ok (.dict es, c')
    | '[' :: _ =>
      let inner := skipGaps (c.skip 1)
      match inner.rest with
      | ']' :: _ => .ok (.list [], inner.skip 1)
      | _ => do
        let (xs, c') ← readItems budget inner
        .ok (.list xs, c')
    | cs =>
      match word? cs words with
      | some (n, d) => .ok (d, c.skip n)
      | none => readNumber c

/-- Reads the items of a list up to the closing bracket. -/
def readItems : Nat → Cursor → Except Problem (List Data × Cursor)
  | 0, c => .error (.at "Expecting value" c.place)
  | budget + 1, c => do
    let (d, c) ← readValue budget c
    let c := skipGaps c
    match c.rest with
    | ']' :: _ => .ok ([d], c.skip 1)
    | ',' :: _ => do
      let (ds, c) ← readItems budget (skipGaps (c.skip 1))
      .ok (d :: ds, c)
    | _ => .error (.at "Expecting ',' delimiter" c.place)

/-- Reads the entries of a dictionary up to the closing brace, after those in `done`. -/
def readEntries : Nat → Data.Entries → Cursor → Except Problem (Data.Entries × Cursor)
  | 0, _, c => .error (.at "Expecting value" c.place)
  | budget + 1, done, c =>
    match c.rest with
    | '"' :: _ => do
      let (key, c) ← readString c.place (c.rest.length + 1) [] (c.skip 1)
      let c := skipGaps c
      match c.rest with
      | ':' :: _ => do
        let (d, c) ← readValue budget (skipGaps (c.skip 1))
        let done := Data.put key d done
        let c := skipGaps c
        match c.rest with
        | '\x7d' :: _ => .ok (done, c.skip 1)
        | ',' :: _ => readEntries budget done (skipGaps (c.skip 1))
        | _ => .error (.at "Expecting ',' delimiter" c.place)
      | _ => .error (.at "Expecting ':' delimiter" c.place)
    | _ => .error (.at "Expecting property name enclosed in double quotes" c.place)

end

/-- The data of a JSON text. -/
def parse (s : String) : Except Problem Data := do
  let cs := s.toList
  if cs.head? = some (Char.ofNat 0xfeff) then
    .error (.at "Unexpected UTF-8 BOM (decode using utf-8-sig)" 0)
  else
    let (d, c) ← readValue (2 * cs.length + 2) (skipGaps ⟨0, cs⟩)
    let c := skipGaps c
    if c.rest.isEmpty then .ok d else .error (.at "Extra data" c.place)

/-- The problem in words: the line and the column of its place count from one. -/
def Problem.toFault (s : String) : Problem → Fault
  | .digits count => .tooManyDigits count
  | .at message place =>
    let before := s.toList.take place
    let line := before.count '\n' + 1
    let column := (before.reverse.takeWhile (· ≠ '\n')).length + 1
    .json s!"{message}: line {line} column {column} (char {place})"

/-- The data of a JSON text, or the fault that refuses it. -/
def read (s : String) : Except Fault Data :=
  match parse s with
  | .ok d => .ok d
  | .error p => .error (p.toFault s)

end Parley.Json
