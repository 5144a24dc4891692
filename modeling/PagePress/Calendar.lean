import PagePress.Number.Shortest
import PagePress.Text.Quoted

/-!
Dates and times of the Gregorian calendar, the time zones that they may be told in, and the two
ways to write them: a plain one for readers, and one that names every part.
-/

namespace PagePress.Calendar

/-- Why some numbers are no date or time. -/
inductive Error where
  | year (n : Nat)
  | month
  | day
  | hour
  | minute
  | second
  /-- A time zone a day or more away from UTC, in seconds. -/
  | offset (seconds : Int)
  deriving DecidableEq, Repr

/-! ### Days -/

/-- The days from the epoch to a date of the Gregorian calendar. Years are counted from March, so
that a leap day is the last of its year. -/
def daysFromDate (year month day : Nat) : Int :=
  let y : Int := if month ≤ 2 then (year : Int) - 1 else year
  let shifted : Int := if month ≤ 2 then (month : Int) + 9 else (month : Int) - 3
  365 * y + y.fdiv 4 - y.fdiv 100 + y.fdiv 400 + (153 * shifted + 2).fdiv 5 + ((day : Int) - 1)
    - 719468

/-- The date that lies a number of days after the epoch. -/
def dateFromDays (days : Int) : Int × Nat × Nat :=
  let z := days + 719468
  let era := z.fdiv 146097
  let dayOfEra := z - 146097 * era
  let yearOfEra := (dayOfEra - dayOfEra / 1460 + dayOfEra / 36524 - dayOfEra / 146096) / 365
  let dayOfYear := dayOfEra - (365 * yearOfEra + yearOfEra / 4 - yearOfEra / 100)
  let shifted := (5 * dayOfYear + 2) / 153
  let day := dayOfYear - (153 * shifted + 2) / 5 + 1
  let month := if shifted < 10 then shifted + 3 else shifted - 9
  let year := yearOfEra + 400 * era + (if month ≤ 2 then 1 else 0)
  (year, month.toNat, day.toNat)

/-- The days of a month. -/
def daysIn (year month : Nat) : Nat :=
  if month = 2 then
    if year % 4 = 0 && (year % 100 != 0 || year % 400 = 0) then 29 else 28
  else if [4, 6, 9, 11].contains month then 30 else 31

/-- The digits of a number with zeros in front. -/
def padded (width n : Nat) : List Char := Number.padZeros width (Nat.toDigits 10 n)

/-- A date. -/
structure Date where
  year : Nat
  month : Nat
  day : Nat
  deriving DecidableEq, Repr, Inhabited

/-- The last year that has dates. -/
def maxYear : Nat := 9999

namespace Date

/-- Checks that the calendar has a date. -/
def check (d : Date) : Except Error Unit :=
  if d.year = 0 || maxYear < d.year then .error (.year d.year)
  else if d.month = 0 || 12 < d.month then .error .month
  else if d.day = 0 || daysIn d.year d.month < d.day then .error .day
  else .ok ()

/-- The date with four digits of the year and two of month and day. -/
def text (d : Date) : List Char :=
  padded 4 d.year ++ '-' :: padded 2 d.month ++ '-' :: padded 2 d.day

/-- The numbers that name a date. -/
def parts (d : Date) : List Nat := [d.year, d.month, d.day]

end Date

/-! ### Times -/

/-- A time of the day. -/
structure Time where
  hour : Nat
  minute : Nat
  second : Nat
  microsecond : Nat := 0
  deriving DecidableEq, Repr, Inhabited

namespace Time

/-- Checks that a day has a time. -/
def check (t : Time) : Except Error Unit :=
  if 23 < t.hour then .error .hour
  else if 59 < t.minute then .error .minute
  else if 59 < t.second then .error .second
  else .ok ()

/-- The time with two digits of each part, and six of the fraction if there is one. -/
def text (t : Time) : List Char :=
  padded 2 t.hour ++ ':' :: padded 2 t.minute ++ ':' :: padded 2 t.second ++
    (if t.microsecond = 0 then [] else '.' :: padded 6 t.microsecond)

/-- The numbers that name a time. Zeros at the end are left out, but not the minute. -/
def parts (t : Time) : List Nat :=
  [t.hour, t.minute] ++
    (if t.microsecond = 0 then if t.second = 0 then [] else [t.second]
     else [t.second, t.microsecond])

/-- The seconds since midnight. -/
def seconds (t : Time) : Nat := t.hour * 3600 + t.minute * 60 + t.second

end Time

/-! ### Time zones -/

/-- A time zone: how many seconds it is ahead of UTC, and its name. -/
structure Zone where
  offset : Int
  name : String
  deriving DecidableEq, Repr, Inhabited

namespace Zone

/-- Checks that a zone is less than a day away from UTC. -/
def check (z : Zone) : Except Error Unit :=
  if 86400 ≤ z.offset.natAbs then .error (.offset z.offset) else .ok ()

/-- The offset with its sign, in hours and minutes. -/
def text (z : Zone) : List Char :=
  let minutes := z.offset.natAbs / 60
  (if z.offset < 0 then '-' else '+') :: padded 2 (minutes / 60) ++ ':' :: padded 2 (minutes % 60)

/-- A span of seconds, named as whole days, which may be negative, and what is left of a day. -/
def spanText (seconds : Int) : List Char :=
  let days := seconds.fdiv 86400
  let rest := seconds - days * 86400
  let named : List (List Char) :=
    (if days = 0 then [] else [("days=" ++ toString days).toList]) ++
      (if rest = 0 then [] else [("seconds=" ++ toString rest).toList])
  "datetime.timedelta(".toList ++
    (if named.isEmpty then ['0'] else List.intercalate [',', ' '] named) ++ [')']

/-- The zone with its parts named. -/
def namedText (z : Zone) : List Char :=
  "datetime.timezone(".toList ++ spanText z.offset ++ ',' :: ' ' ::
    Text.quote z.name.toList ++ [')']

end Zone

/-! ### Moments -/

/-- A date with a time, told in a time zone or in none. -/
structure Moment where
  date : Date
  time : Time
  zone : Option Zone := none
  deriving DecidableEq, Repr, Inhabited

namespace Moment

/-- Checks the parts of a moment, its zone first. -/
def check (m : Moment) : Except Error Unit := do
  (m.zone.map Zone.check).getD (.ok ())
  m.date.check
  m.time.check

/-- The date and the time with a blank between them, and the offset of the zone. -/
def text (m : Moment) : List Char :=
  m.date.text ++ ' ' :: m.time.text ++ (m.zone.map Zone.text).getD []

/-- The seconds from the epoch to the moment, told in UTC. -/
def seconds (m : Moment) : Int :=
  daysFromDate m.date.year m.date.month m.date.day * 86400 + m.time.seconds
    - (m.zone.map Zone.offset).getD 0

/-- The moment one second later, unless no year has it. -/
def nextSecond? (m : Moment) : Option Moment :=
  let total := daysFromDate m.date.year m.date.month m.date.day * 86400 + m.time.seconds + 1
  let days := total.fdiv 86400
  let (year, month, day) := dateFromDays days
  let rest := (total - days * 86400).toNat
  if (maxYear : Int) < year then none
  else some { m with
    date := ⟨year.toNat, month, day⟩
    time := ⟨rest / 3600, rest / 60 % 60, rest % 60, m.time.microsecond⟩ }

/-- Two moments are the same point in time. One that is told in a zone is never the same as one
that is told in none. -/
def same (a b : Moment) : Bool :=
  a.zone.isSome == b.zone.isSome && a.seconds == b.seconds &&
    a.time.microsecond == b.time.microsecond

end Moment

/-! ### Parts by name -/

/-- Some numbers in parentheses behind a name. -/
def call (name : String) (parts : List Nat) (more : List (List Char)) : List Char :=
  name.toList ++ '(' :: List.intercalate [',', ' '] (parts.map (Nat.toDigits 10) ++ more) ++ [')']

/-- A date as a value inside another one, where it shows under a name. -/
def Date.namedText (name : String) (d : Date) : List Char := call name d.parts []

/-- A time as a value inside another one. -/
def Time.namedText (name : String) (t : Time) : List Char := call name t.parts []

/-- A moment as a value inside another one. -/
def Moment.namedText (name : String) (m : Moment) : List Char :=
  call name (m.date.parts ++ m.time.parts)
    (m.zone.map fun z => "tzinfo=".toList ++ z.namedText).toList

def Error.message : Error → String
  | year n => "year " ++ toString n ++ " is out of range"
  | month => "month must be in 1..12"
  | day => "day is out of range for month"
  | hour => "hour must be in 0..23"
  | minute => "minute must be in 0..59"
  | second => "second must be in 0..59"
  | offset seconds =>
    "offset must be a timedelta strictly between -timedelta(hours=24) and timedelta(hours=24), not " ++
      .ofList (Zone.spanText seconds) ++ "."

end PagePress.Calendar
