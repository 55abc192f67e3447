import Parley.Fault
import Parley.Number.Text
import Parley.Time.Instant
import Parley.Time.Words

/-!
# Reading dates in free form

A date may be written in many ways: `2024-01-02T03:04:05+02:00`, `Jan 2 2024 3pm`, `20240102`. The
words of the text are gone through once. Numbers that may be a day, a month or a year are collected
and told apart at the end: by their size, by the place of a month that was named, and otherwise in
the order month, day, year. What the text leaves open is taken from the day of reading, at midnight.

A date without a zone is in universal time.

This is a part of what stands in for the library of dates (`Parley.Time.Instant`).
-/

namespace Parley.Time

/-- What a number of a date stands for. -/
inductive Role where
  | year
  | month
  | day
  deriving DecidableEq, Repr

/-- What has been found in a text. -/
structure Findings where
  /-- The numbers of the date, in the order in which they stand. -/
  numbers : List Nat := []
  yearAt : Option Nat := none
  monthAt : Option Nat := none
  dayAt : Option Nat := none
  /-- Is a number written with its century? -/
  century : Bool := false
  weekday : Option Nat := none
  hour : Option Nat := none
  minute : Option Nat := none
  second : Option Nat := none
  micro : Option Nat := none
  zoneName : Option String := none
  zoneOffset : Option Int := none
  half : Option Nat := none

/-! ### Numbers -/

/-- A number with the digits after its point. -/
structure Numeral where
  whole : List Char
  fraction : List Char

namespace Numeral

/-- The number that a word is. -/
def ofWord? (word : String) : Option Numeral :=
  let cs := word.toList
  let whole := cs.takeWhile Char.isDigit
  if whole.isEmpty then none
  else
    match cs.dropWhile Char.isDigit with
    | [] => some ⟨whole, []⟩
    | '.' :: fraction => if fraction.all Char.isDigit then some ⟨whole, fraction⟩ else none
    | _ => none

/-- The whole part. -/
def value (n : Numeral) : Nat :=
  Number.digitsValue n.whole

/-- Is there anything after the point? -/
def hasFraction (n : Numeral) : Bool :=
  n.fraction.any (· != '0')

/-- The sixtieths that the fraction makes up, rounded down. -/
def sixtieths (n : Numeral) : Nat :=
  60 * Number.digitsValue n.fraction / Number.tenTo n.fraction.length

end Numeral

/-- The value of digits; `none` if anything else is among them. -/
def digits? (cs : List Char) : Option Nat :=
  if !cs.isEmpty && cs.all Char.isDigit then some (Number.digitsValue cs) else none

/-- Seconds and microseconds. -/
def seconds? (word : String) : Option (Nat × Nat) := do
  let n ← Numeral.ofWord? word
  if word.toList.contains '.' then
    let six := (n.fraction ++ List.replicate 6 '0').take 6
    if n.fraction.isEmpty then none else return (n.value, Number.digitsValue six)
  else return (n.value, 0)

/-- Minutes, with seconds if the number has a fraction. -/
def minutesOf (n : Numeral) : Nat × Option Nat :=
  (n.value, if n.hasFraction then some n.sixtieths else none)

/-- The hour on a clock of twenty-four hours. -/
def fullHour (hour half : Nat) : Nat :=
  if hour < 12 && half == 1 then hour + 12
  else if hour == 12 && half == 0 then 0
  else hour

/-! ### The numbers of the date -/

namespace Findings

/-- Gives the last number a role; fails if another number has it. -/
def assign (f : Findings) : Option Role → Option Findings
  | none => some f
  | some .year =>
    if f.yearAt.isSome then none else some { f with yearAt := some (f.numbers.length - 1) }
  | some .month =>
    if f.monthAt.isSome then none else some { f with monthAt := some (f.numbers.length - 1) }
  | some .day =>
    if f.dayAt.isSome then none else some { f with dayAt := some (f.numbers.length - 1) }

/-- Adds a number. A number that shows its century is the year. -/
def add (f : Findings) (n : Nat) (long : Bool) (role : Option Role) : Option Findings :=
  let grown := { f with numbers := f.numbers ++ [n], century := f.century || long }
  if long then
    match role with
    | none | some .year => grown.assign (some .year)
    | _ => none
  else grown.assign role

/-- Adds the number that digits stand for. -/
def addDigits (f : Findings) (cs : List Char) (role : Option Role) : Option Findings := do
  f.add (← digits? cs) (cs.length > 2) role

/-- Adds a word that must be a number. -/
def addWord (f : Findings) (word : String) : Option Findings :=
  f.addDigits word.toList none

/-- Adds a number by its value. -/
def addNumeral (f : Findings) (n : Numeral) : Option Findings :=
  f.add n.value (n.value > 100 || (n.value == 100 && n.hasFraction)) none

/-- Adds a month that was named. -/
def addMonth (f : Findings) (month : Nat) : Option Findings :=
  f.add month false (some .month)

/-- The number at a place. -/
def numberAt (f : Findings) (place : Nat) : Nat :=
  f.numbers.getD place 0

/-- May a number still be the day? -/
def mayBeDay (f : Findings) (n : Numeral) : Bool :=
  if f.dayAt.isSome then false
  else
    let last :=
      match f.monthAt with
      | none => 31
      | some m =>
        match f.yearAt with
        | none => daysInMonth 2000 (f.numberAt m)
        | some y => daysInMonth (f.numberAt y) (f.numberAt m)
    1 ≤ n.value && (n.value < last || (n.value == last && !n.hasFraction))

/-- The year, month and day among three numbers of which at most one has a role. -/
def threeParts (f : Findings) (a b c : Nat) : Nat × Nat × Nat :=
  match f.monthAt with
  | some 0 => if b > 31 then (b, a, c) else (c, a, b)
  | some 1 => if a > 31 then (a, b, c) else (c, b, a)
  | some _ => if b > 31 then (b, c, a) else (a, c, b)
  | none =>
    if a > 31 || f.yearAt == some 0 then (a, b, c)
    else if a > 12 then (c, b, a)
    else (c, a, b)

/-- The place that two known places leave of three. -/
def lastPlace (a b : Nat) : Nat := 3 - a - b

/-- The places of year, month and day when roles decide alone: every number has a role, or all but
one of three. -/
def placesByRole? (f : Findings) : Option (Option Nat × Option Nat × Option Nat) :=
  let roles := [f.yearAt, f.monthAt, f.dayAt].filter Option.isSome
  if f.numbers.length == roles.length && !roles.isEmpty then
    some (f.yearAt, f.monthAt, f.dayAt)
  else if f.numbers.length == 3 && roles.length == 2 then
    match f.yearAt, f.monthAt, f.dayAt with
    | some y, some m, none => some (some y, some m, some (lastPlace y m))
    | some y, none, some d => some (some y, some (lastPlace y d), some d)
    | none, some m, some d => some (some (lastPlace m d), some m, some d)
    | _, _, _ => none
  else none

/-- Year, month and day, as far as they are given; fails if there are more than three numbers. -/
def date? (f : Findings) : Option (Option Nat × Option Nat × Option Nat) :=
  match f.placesByRole? with
  | some (y, m, d) => some (y.map f.numberAt, m.map f.numberAt, d.map f.numberAt)
  | none =>
    match f.numbers with
    | [] => some (none, none, none)
    | [a] => some (if a > 31 then (some a, none, none) else (none, none, some a))
    | [a, b] =>
      match f.monthAt with
      | some m =>
        let month := f.numberAt m
        let other := if m == 0 then b else a
        some (if other > 31 then (some other, some month, none)
          else (none, some month, some other))
      | none =>
        some (if a > 31 then (some a, some b, none)
          else if b > 31 then (some b, some a, none)
          else (none, some a, some b))
    | [a, b, c] =>
      let (y, m, d) := f.threeParts a b c
      some (some y, some m, some d)
    | _ => none

/-- Has anything been found? -/
def isEmpty (f : Findings) : Bool :=
  f.numbers.isEmpty && f.weekday.isNone && f.hour.isNone && f.minute.isNone && f.second.isNone &&
    f.micro.isNone && f.zoneName.isNone && f.zoneOffset.isNone && f.half.isNone

end Findings

/-! ### Words -/

/-- The place of the unit that belongs to the number at `i`: the word behind it, with or without a
blank, else the word before it. -/
def unitPlace? (words : Array String) (i : Nat) : Option Nat :=
  let unitAt (k : Nat) : Bool := ((words[k]?).bind unitOf?).isSome
  if unitAt (i + 1) then some (i + 1)
  else if words[i + 1]? == some " " && unitAt (i + 2) then some (i + 2)
  else if i > 0 && unitAt (i - 1) then some (i - 1)
  else if 1 < i && i + 1 == words.size && words[i - 1]? == some " " && unitAt (i - 2) then
    some (i - 2)
  else none

/-- Sets hours, minutes or seconds; there is no unit below seconds. -/
def setUnit (f : Findings) (word : String) (n : Numeral) : Nat → Option Findings
  | 0 =>
    some { f with hour := some n.value,
                  minute := if n.hasFraction then some n.sixtieths else f.minute }
  | 1 =>
    let (minute, second) := minutesOf n
    some { f with minute := some minute, second }
  | 2 => do
    let (second, micro) ← seconds? word
    return { f with second := some second, micro := some micro }
  | _ => some f

/-- Hours, minutes and perhaps seconds in one run of digits, `HHMM` or `HHMMSS` with a fraction. -/
def clockDigits (f : Findings) (cs : List Char) : Option Findings := do
  let hour ← digits? (cs.take 2)
  let minute ← digits? ((cs.drop 2).take 2)
  let (second, micro) ← seconds? (String.ofList (cs.drop 4))
  return { f with hour := some hour, minute := some minute, second := some second,
                  micro := some micro }

/-- Year, month and day in one run of digits, `YYYYMMDD`, perhaps followed by `HHMM` and `SS`. -/
def dateDigits (f : Findings) (cs : List Char) : Option Findings := do
  let f ← f.addDigits (cs.take 4) (some .year)
  let f ← f.addDigits ((cs.drop 4).take 2) none
  let f ← f.addDigits ((cs.drop 6).take 2) none
  if cs.length > 8 then
    let f := { f with hour := ← digits? ((cs.drop 8).take 2),
                      minute := ← digits? ((cs.drop 10).take 2) }
    if cs.length > 12 then return { f with second := ← digits? (cs.drop 12) } else return f
  else return f

/-- A clock time, `HH:MM` or `HH:MM:SS`, and the place of its last word. -/
def clockTime (words : Array String) (i : Nat) (n : Numeral) (f : Findings) :
    Option (Nat × Findings) := do
  let (minute, second) := minutesOf (← Numeral.ofWord? (← words[i + 2]?))
  let f := { f with hour := some n.value, minute := some minute, second }
  if i + 4 < words.size && words[i + 3]? == some ":" then
    let (second, micro) ← seconds? (← words[i + 4]?)
    return (i + 4, { f with second := some second, micro := some micro })
  else return (i + 2, f)

/-- Numbers with a sign between them, `01-02-03`, `1.Jan.2024`, and the place of the last word. -/
def signedDate (words : Array String) (i : Nat) (word : String) (f : Findings) :
    Option (Nat × Findings) := do
  let sign ← words[i + 1]?
  let f ← f.addWord word
  match words[i + 2]? with
  | none => return (i + 1, f)
  | some second =>
    if isFiller second then return (i + 1, f)
    else
      let f ←
        if second.toList.all Text.isDecimal then f.addWord second
        else f.addMonth (← monthOf? second)
      if words[i + 3]? == some sign then
        let third ← words[i + 4]?
        let f ←
          match monthOf? third with
          | some month => f.addMonth month
          | none => f.addWord third
        return (i + 4, f)
      else return (i + 2, f)

/-- Is there no word at a place, or one that neither continues a clock time nor names a unit? -/
def endsNumber (words : Array String) (i : Nat) : Bool :=
  match words[i]? with
  | none => true
  | some w => w != ":" && (unitOf? w).isNone

/-- A number: what it adds, and the place of the last word that belongs to it. -/
def readNumber (words : Array String) (i : Nat) (word : String) (f : Findings) :
    Option (Nat × Findings) := do
  let n ← Numeral.ofWord? word
  let cs := word.toList
  let size := cs.length
  if f.numbers.length == 3 && (size == 2 || size == 4) && f.hour.isNone &&
      endsNumber words (i + 1) then
    let hour ← digits? (cs.take 2)
    if size == 4 then
      return (i, { f with hour := some hour, minute := ← digits? (cs.drop 2) })
    else return (i, { f with hour := some hour })
  else if size == 6 || (size > 6 && n.whole.length == 6) then
    if f.numbers.isEmpty && !cs.contains '.' then
      let f ← f.addDigits (cs.take 2) none
      let f ← f.addDigits ((cs.drop 2).take 2) none
      return (i, ← f.addDigits (cs.drop 4) none)
    else return (i, ← clockDigits f cs)
  else if size == 8 || size == 12 || size == 14 then return (i, ← dateDigits f cs)
  else
    match unitPlace? words i with
    | some place =>
      let unit ← (words[place]?).bind unitOf?
      if place > i then return (place, ← setUnit f word n unit)
      else return (i, ← setUnit f word n (unit + 1))
    | none =>
      if words[i + 1]? == some ":" && i + 2 < words.size then clockTime words i n f
      else
        match words[i + 1]? with
        | none => return (i + 1, ← f.addNumeral n)
        | some follower =>
          if follower == "-" || follower == "/" || follower == "." then
            signedDate words i word f
          else if isFiller follower then
            match (words[i + 2]?).bind halfOf? with
            | some half => return (i + 2, { f with hour := some (fullHour n.value half) })
            | none => return (i + 1, ← f.addNumeral n)
          else
            match halfOf? follower with
            | some half =>
              if n.value < 24 then
                return (i + 1, { f with hour := some (fullHour n.value half) })
              else if f.mayBeDay n then return (i, ← f.addNumeral n)
              else none
            | none => if f.mayBeDay n then return (i, ← f.addNumeral n) else none

/-- The year with its century, as seen from `thisYear`: never fifty years or more ahead. -/
def fullYear (thisYear year : Nat) (century : Bool) : Nat :=
  if year < 100 && !century then
    let year := year + thisYear / 100 * 100
    if year ≥ thisYear + 50 then year - 100
    else if year + 50 < thisYear then year + 100
    else year
  else year

/-- A month that is named: what follows it with a sign, or after `of`, belongs to it. -/
def readMonth (thisYear : Nat) (words : Array String) (i month : Nat) (f : Findings) :
    Option (Nat × Findings) := do
  let f ← f.addMonth month
  match words[i + 1]? with
  | none => return (i, f)
  | some sign =>
    if sign == "-" || sign == "/" then
      let f ← f.addWord (← words[i + 2]?)
      if words[i + 3]? == some sign then
        return (i + 4, ← f.addWord (← words[i + 4]?))
      else return (i + 2, f)
    else if sign == " " && words[i + 3]? == some " " && i + 4 < words.size &&
        (words[i + 2]?).map small == some "of" then
      let year ← words[i + 4]?
      if year.toList.all Text.isDecimal then
        let full := fullYear thisYear (← digits? year.toList) false
        return (i + 4, ← f.addDigits (Number.digitsOf full) (some .year))
      else return (i + 4, f)
    else return (i, f)

/-- An offset behind a sign: `0530`, `05:30` or `05`, and the place of its last word. -/
def readOffset (words : Array String) (i : Nat) (ahead : Bool) (f : Findings) :
    Option (Nat × Findings) := do
  let first ← words[i + 1]?
  let cs := first.toList
  let (place, hours, minutes) ←
    if cs.length == 4 then
      pure (i + 1, ← digits? (cs.take 2), ← digits? (cs.drop 2))
    else if words[i + 2]? == some ":" then
      pure (i + 3, ← digits? cs, ← digits? (← words[i + 3]?).toList)
    else if cs.length ≤ 2 then pure (i + 1, ← digits? cs, 0)
    else none
  let size : Int := (hours * 3600 + minutes * 60 : Nat)
  let f := { f with zoneOffset := some (if ahead then size else -size) }
  let wordAt (k : Nat) : String := (words[place + k]?).getD ""
  if place + 4 < words.size && isFiller (wordAt 1) && wordAt 2 == "(" && wordAt 4 == ")" &&
      (wordAt 3).length ≥ 3 && f.zoneName.isNone && isZoneName (wordAt 3) then
    return (place + 4, { f with zoneName := some (wordAt 3) })
  else return (place, f)

/-- The name of a zone. A sign behind it counts the other way round, `GMT+3` for three hours behind
universal time; with a sign, a name for universal time is no longer the name of the zone. -/
def readZone (words : Array String) (i : Nat) (word : String) (f : Findings) :
    Array String × Findings :=
  let offset := if word == "z" then some 0 else none
  let named := { f with zoneName := some word, zoneOffset := offset }
  let flipped (sign : String) : Array String × Findings :=
    (words.setIfInBounds (i + 1) sign,
      { named with zoneOffset := none,
                   zoneName := if isUniversal word then none else some word })
  match words[i + 1]? with
  | some "+" => flipped "-"
  | some "-" => flipped "+"
  | _ => (words, named)

/-- Goes through the words from place `i` on. -/
def readWords (thisYear : Nat) : Nat → Array String → Nat → Findings → Option Findings
  | 0, _, _, f => some f
  | budget + 1, words, i, f =>
    match words[i]? with
    | none => some f
    | some word =>
      if (word.toList.head?).any Text.isDecimal ||
          ["nan", "inf", "infinity"].contains (small word) then do
        let (place, f) ← readNumber words i word f
        readWords thisYear budget words (place + 1) f
      else
        match weekdayOf? word, monthOf? word, halfOf? word with
        | some day, _, _ =>
          readWords thisYear budget words (i + 1) { f with weekday := some day }
        | none, some month, _ => do
          let (place, f) ← readMonth thisYear words i month f
          readWords thisYear budget words (place + 1) f
        | none, none, some half => do
          let hour ← f.hour
          if hour > 12 then none
          else
            readWords thisYear budget words (i + 1)
              { f with hour := some (fullHour hour half), half := some half }
        | none, none, none =>
          if f.hour.isSome && f.zoneName.isNone && f.zoneOffset.isNone && isZoneName word then
            let (words, f) := readZone words i word f
            readWords thisYear budget words (i + 1) f
          else if f.hour.isSome && (word == "+" || word == "-") then do
            let (place, f) ← readOffset words i (word == "+") f
            readWords thisYear budget words (place + 1) f
          else if isFiller word then readWords thisYear budget words (i + 1) f
          else none

/-! ### The instant -/

/-- The offset of the zone that was found, if one is known. -/
def Findings.offset? (f : Findings) : Option Int :=
  match f.zoneName with
  | some name => if isUniversal name then some 0 else f.zoneOffset
  | none => f.zoneOffset

/-- The greatest number that a part of a date may be given as. -/
def partLimit : Nat := 2147483647

/-- Is a part of a date in its range? -/
def checkPart (ok : Bool) (problem text : String) : Except Fault Unit :=
  if ok then .ok () else .error (.unreadableDate problem text)

/-- A date and time that exist. -/
def checkCivil (c : Civil) (text : String) : Except Fault Civil := do
  match [c.year, c.month, c.day, c.hour, c.minute, c.second].find? (· > partLimit) with
  | some n => throw (.dateNumberTooLarge (n < Number.twoTo 63))
  | none => pure ()
  checkPart (1 ≤ c.year && c.year ≤ 9999) s!"year {c.year} is out of range" text
  checkPart (1 ≤ c.month && c.month ≤ 12) "month must be in 1..12" text
  checkPart (1 ≤ c.day && c.day ≤ daysInMonth c.year c.month) "day is out of range for month" text
  checkPart (c.hour ≤ 23) "hour must be in 0..23" text
  checkPart (c.minute ≤ 59) "minute must be in 0..59" text
  checkPart (c.second ≤ 59) "second must be in 0..59" text
  return c

/-- The instant of a date and time with an offset from universal time. -/
def instantOf (c : Civil) (offset : Int) : Except Fault Instant :=
  if offset.natAbs ≥ 86400 then .error .offsetOutOfRange
  else
    let micros := c.toMicros - offset * 1000000
    match Civil.ofMicros? micros with
    | some _ => .ok ⟨micros⟩
    | none => .error .dateOutOfRange

/-- The day of a date whose day is not given: that of `today`, or the last one of the month. -/
def openDay (today : Civil) (year month : Nat) (text : String) : Except Fault Nat := do
  checkPart (1 ≤ month && month ≤ 12) s!"bad month number {month}; must be 1-12" text
  return min today.day (daysInMonth year month)

/-- Moves a date on to a day of the week. -/
def onWeekday (c : Civil) (day : Nat) : Except Fault Civil :=
  let ahead := (day + 7 - Time.weekday c.year c.month c.day) % 7
  match Civil.ofMicros? (c.toMicros + ahead * dayMicros) with
  | some c => .ok c
  | none => .error .dateOutOfRange

/-- The instant that a text names, read at the time `now`. -/
def readDate (now : Instant) (text : String) : Except Fault Instant := do
  let today := (now.civil? 0).getD ⟨1970, 1, 1, 0, 0, 0, 0⟩
  let words := (words text).toArray
  let found := do
    let f ← readWords today.year (words.size + 1) words 0 {}
    let date ← f.date?
    return (f, date)
  match found with
  | none => throw (.unreadableDate "Unknown string format" text)
  | some (f, year, month, day) =>
    if f.isEmpty then throw (.unreadableDate "String does not contain a date" text)
    let fullYear := (year.map fun y => fullYear today.year y f.century).getD today.year
    let month := month.getD today.month
    let dayNumber ←
      match day with
      | some d => pure d
      | none => openDay today fullYear month text
    let c ← checkCivil
      { year := fullYear, month, day := dayNumber, hour := f.hour.getD 0,
        minute := f.minute.getD 0, second := f.second.getD 0, micro := f.micro.getD 0 } text
    let c ←
      match f.weekday, day with
      | some weekday, none => onWeekday c weekday
      | _, _ => pure c
    instantOf c (f.offset?.getD 0)

end Parley.Time
