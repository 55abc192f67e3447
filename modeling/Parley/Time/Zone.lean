import Parley.Number.Text
import Parley.Time.Instant

/-!
# Zones

A zone is named by a text such as `UTC`, `UTC+3` or `EST5`. An offset counts ahead of universal
time if the name is `UTC` or `GMT`, behind it otherwise. A text that names no zone stands for the
zone of the shell itself, which is universal time.

This is a part of what stands in for the library of dates (`Parley.Time.Instant`).
-/

namespace Parley.Time

/-- A zone: its offset from universal time in seconds, and its short name. -/
structure Zone where
  offset : Int
  name : String
  deriving DecidableEq, Repr

namespace Zone

/-- The zone of the shell. -/
def home : Zone := ⟨0, "UTC"⟩

/-- Ends the name of a zone. -/
def endsName (c : Char) : Bool :=
  c.isDigit || c == ':' || c == ',' || c == '-' || c == '+'

/-- The size of an offset, `0530`, `05:30` or `5`, in seconds; nothing may follow it. -/
def offsetSize? (cs : List Char) : Option Nat :=
  let digits := cs.takeWhile Char.isDigit
  match cs.dropWhile Char.isDigit with
  | [] =>
    if digits.length == 4 then
      some (Number.digitsValue (digits.take 2) * 3600 + Number.digitsValue (digits.drop 2) * 60)
    else if digits.length == 1 || digits.length == 2 then
      some (Number.digitsValue digits * 3600)
    else none
  | ':' :: minutes =>
    if !digits.isEmpty && digits.length != 4 && !minutes.isEmpty && minutes.all Char.isDigit then
      some (Number.digitsValue digits * 3600 + Number.digitsValue minutes * 60)
    else none
  | _ => none

/-- The zone that a text names. -/
def ofName (text : String) : Zone :=
  let cs := text.toList
  let cs := if cs.head? == some ':' then cs.drop 1 else cs
  let name := cs.takeWhile fun c => !endsName c
  let (behind, size) :=
    match cs.dropWhile fun c => !endsName c with
    | '+' :: rest => (true, rest)
    | '-' :: rest => (false, rest)
    | rest => (true, rest)
  match offsetSize? size with
  | none => home
  | some size =>
    if name.isEmpty then home
    else
      let name := String.ofList name
      let ahead := if name == "GMT" || name == "UTC" then behind else !behind
      ⟨if ahead then size else -size, name⟩

end Zone

/-- The short names of the days of the week. -/
def weekdayNames : List String := ["Mon", "Tue", "Wed", "Thu", "Fri", "Sat", "Sun"]

/-- The short names of the months. -/
def monthNames : List String :=
  ["Jan", "Feb", "Mar", "Apr", "May", "Jun", "Jul", "Aug", "Sep", "Oct", "Nov", "Dec"]

/-- A date and time as headers have them, `Tue, 02 Jan 2024 03:04:05 UTC`. -/
def Civil.headerText (c : Civil) (zone : String) : String :=
  weekdayNames.getD (weekday c.year c.month c.day) "" ++ ", " ++ padded 2 c.day ++ " " ++
    monthNames.getD (c.month - 1) "" ++ " " ++ toString c.year ++ " " ++ padded 2 c.hour ++ ":" ++
    padded 2 c.minute ++ ":" ++ padded 2 c.second ++ " " ++ zone

end Parley.Time
