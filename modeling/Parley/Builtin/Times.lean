import Parley.Builtin.Guard
import Parley.Time.Reader
import Parley.Time.Zone

/-!
# The functions on instants

They read, write and compare instants. None of them reports its failures: a text that is no date is
a failure of the shell.
-/

namespace Parley.Act

/-- The instant that an argument is. -/
def argTime (args : Args) (name : String) : Act Instant := do
  match ← argValue args name with
  | .constant (.time t) => return t
  | v => throw (.noAttribute v.label "getValue")

/-- The date and time of an instant in a zone. -/
def civilIn (t : Instant) (zone : Time.Zone) : Act Time.Civil :=
  match t.civil? zone.offset with
  | some c => pure c
  | none => throw .dateOutOfRange

/-- An instant in the zone that an argument names. -/
def argCivil (args : Args) : Act (Time.Civil × Time.Zone) := do
  let t ← argTime args "time"
  let zone := Time.Zone.ofName (← argString args "tz")
  return (← civilIn t zone, zone)

/-- Carries out a function on instants. -/
def runTime (f : TimeFunction) (args : Args) : Act Answer := do
  match f with
  | .now => return constant (.time (← get).now)
  | .parse =>
    let text ← argString args "str"
    return constant (.time (← ofResult (Time.readDate (← get).now text)))
  | .show =>
    let (c, zone) ← argCivil args
    if zone.offset.natAbs ≥ 86400 then throw .offsetOutOfRange
    return constant (.text (c.text "T" zone.offset))
  | .showhttp =>
    let (c, zone) ← argCivil args
    return constant (.text (c.headerText zone.name))
  | .timestamp =>
    let t ← argTime args "time"
    let seconds := Number.ofFraction? (t.micros < 0) t.micros.natAbs 1000000
    return constant (.float (seconds.getD 0))
  | .lt =>
    return constant (.bool ((← argTime args "left").micros < (← argTime args "right").micros))
  | .gt =>
    return constant (.bool ((← argTime args "left").micros > (← argTime args "right").micros))

end Parley.Act
