/-!
# Instants

A point in time, counted in microseconds from the beginning of 1970 in universal time, and the
calendar that names it. The calendar is the Gregorian one, extended backwards to the year 1; it
ends with the year 9999.

The calendar, zones and the reading of dates are libraries for the shell; the modules of
`Parley.Time` stand in for them.
-/

namespace Parley.Time

/-- Has this year a 29th of February? -/
def isLeap (year : Nat) : Bool :=
  year % 4 == 0 && (year % 100 != 0 || year % 400 == 0)

/-- The number of days of a month. -/
def daysInMonth (year month : Nat) : Nat :=
  match month with
  | 2 => if isLeap year then 29 else 28
  | 4 | 6 | 9 | 11 => 30
  | _ => 31

/-- The days of a year before a month begins. -/
def daysBeforeMonth (year : Nat) : Nat → Nat
  | 0 => 0
  | 1 => 0
  | month + 1 => daysBeforeMonth year month + daysInMonth year month

/-- The days from the beginning of the year 1 to the beginning of a year. -/
def daysBeforeYear (year : Nat) : Nat :=
  let y := year - 1
  y * 365 + y / 4 - y / 100 + y / 400

/-- The days from the beginning of the year 1 to a date. -/
def daysBefore (year month day : Nat) : Nat :=
  daysBeforeYear year + daysBeforeMonth year month + (day - 1)

/-- A date and a time of day. -/
structure Civil where
  year : Nat
  month : Nat
  day : Nat
  hour : Nat
  minute : Nat
  second : Nat
  micro : Nat
  deriving DecidableEq, Repr

/-- The year of a day, from above: the first candidate that has begun by then. -/
def yearOfDay (days : Nat) : Nat → Nat → Nat
  | 0, year => year
  | fuel + 1, year =>
    if daysBeforeYear year ≤ days then year else yearOfDay days fuel (year - 1)

/-- The month of a day of the year, from above. -/
def monthOfDay (year dayOfYear : Nat) : Nat → Nat
  | 0 => 1
  | month + 1 =>
    if daysBeforeMonth year (month + 1) ≤ dayOfYear then month + 1
    else monthOfDay year dayOfYear month

/-- Days from the beginning of the year 1 to the beginning of 1970. -/
def epochDays : Nat := daysBefore 1970 1 1

/-- The microseconds of a day. -/
def dayMicros : Int := 86400000000

/-- The date and time of day at a number of microseconds from the beginning of 1970; `none` outside
the years 1 to 9999. -/
def Civil.ofMicros? (micros : Int) : Option Civil :=
  let days := micros.fdiv dayMicros + epochDays
  let rest := (micros.fmod dayMicros).toNat
  if days < 0 then none
  else
    let days := days.toNat
    let year := yearOfDay days 8 (days / 365 + 1)
    if year > 9999 then none
    else
      let dayOfYear := days - daysBeforeYear year
      let month := monthOfDay year dayOfYear 12
      some
        { year := year
          month := month
          day := dayOfYear - daysBeforeMonth year month + 1
          hour := rest / 3600000000
          minute := rest / 60000000 % 60
          second := rest / 1000000 % 60
          micro := rest % 1000000 }

/-- The microseconds from the beginning of 1970 to a date and time of day. -/
def Civil.toMicros (c : Civil) : Int :=
  ((daysBefore c.year c.month c.day : Int) - epochDays) * dayMicros +
    (((c.hour * 60 + c.minute) * 60 + c.second) * 1000000 + c.micro : Nat)

/-- The day of the week of a date; Monday is 0. -/
def weekday (year month day : Nat) : Nat :=
  daysBefore year month day % 7

/-- A number with at least `width` digits. -/
def padded (width n : Nat) : String :=
  let digits := toString n
  String.ofList (List.replicate (width - digits.length) '0') ++ digits

/-- An offset from universal time in seconds, as `+hh:mm`, with seconds if it has any. -/
def offsetText (seconds : Int) : String :=
  let size := seconds.natAbs
  let sign := if seconds < 0 then "-" else "+"
  let base := sign ++ padded 2 (size / 3600) ++ ":" ++ padded 2 (size / 60 % 60)
  if size % 60 = 0 then base else base ++ ":" ++ padded 2 (size % 60)

/-- Date, the given separator, time of day with microseconds if there are any, and the offset. -/
def Civil.text (c : Civil) (separator : String) (offset : Int) : String :=
  padded 4 c.year ++ "-" ++ padded 2 c.month ++ "-" ++ padded 2 c.day ++ separator ++
    padded 2 c.hour ++ ":" ++ padded 2 c.minute ++ ":" ++ padded 2 c.second ++
    (if c.micro = 0 then "" else "." ++ padded 6 c.micro) ++ offsetText offset

end Parley.Time

namespace Parley

/-- A point in time: microseconds from the beginning of 1970, in universal time. -/
structure Instant where
  micros : Int
  deriving DecidableEq, Repr

namespace Instant

/-- The date and time of day of an instant, `offset` seconds ahead of universal time. -/
def civil? (t : Instant) (offset : Int) : Option Time.Civil :=
  Time.Civil.ofMicros? (t.micros + offset * 1000000)

/-- The text of an instant in universal time, with the given separator. -/
def textWith (t : Instant) (separator : String) : String :=
  match t.civil? 0 with
  | some c => c.text separator 0
  | none => ""

/-- Date and time with a blank between them. -/
def spaced (t : Instant) : String :=
  t.textWith " "

/-- Date and time with a `T` between them. -/
def iso (t : Instant) : String :=
  t.textWith "T"

end Instant

end Parley
