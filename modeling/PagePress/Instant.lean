import PagePress.Calendar
import PagePress.Number.Binary64

/-!
Instants of the calendar. A clock reading names an instant, counted in microseconds from the
first of January 1970 in UTC; the build stamp is its milliseconds as a floating-point clock
reports them, and the time stamp is its date and time in UTC.
-/

namespace PagePress

/-- What a clock shows: a local date and time and how many seconds it is ahead of UTC. A clock
without a time zone shows UTC. -/
structure ClockReading where
  year : Nat
  month : Nat
  day : Nat
  hour : Nat := 0
  minute : Nat := 0
  second : Nat := 0
  microsecond : Nat := 0
  offset : Option Int := some 0
  deriving Repr

namespace ClockReading

/-- The microseconds from the epoch to the instant of a reading. -/
def microseconds (c : ClockReading) : Int :=
  let seconds := Calendar.daysFromDate c.year c.month c.day * 86400 +
    (c.hour * 3600 + c.minute * 60 + c.second : Nat)
  (seconds - c.offset.getD 0) * 1000000 + c.microsecond

/-- The reading of a clock in UTC at an instant after the epoch. -/
def ofMicroseconds (us : Int) : ClockReading :=
  let days := us.fdiv 86400000000
  let (year, month, day) := Calendar.dateFromDays days
  let rest := (us - days * 86400000000).toNat
  { year := year.toNat, month, day, hour := rest / 3600000000, minute := rest / 60000000 % 60,
    second := rest / 1000000 % 60, microsecond := rest % 1000000 }

end ClockReading

/-- The seconds from the epoch as a floating-point number. -/
def timestamp (microseconds : Int) : Number.Binary64 :=
  .ofRatio (microseconds < 0) microseconds.natAbs 1000000

/-- The milliseconds from the epoch: a thousand times the floating-point seconds, without the
fraction. -/
def epochMillis (c : ClockReading) : Int :=
  ((timestamp c.microseconds).mulNat 1000).truncate?.getD 0

/-- The date and time in UTC with milliseconds, for an instant of the years 1 to 9999. -/
def isoTimestamp? (c : ClockReading) : Option String :=
  let us := c.microseconds
  let days := us.fdiv 86400000000
  let (year, month, day) := Calendar.dateFromDays days
  if year < 1 || (Calendar.maxYear : Int) < year then none
  else
    let ms := ((us - days * 86400000000) / 1000).toNat
    let two := Calendar.padded 2
    some <| .ofList <|
      Calendar.Date.text ⟨year.toNat, month, day⟩ ++ 'T' :: two (ms / 3600000) ++ ':' ::
        two (ms / 60000 % 60) ++ ':' :: two (ms / 1000 % 60) ++ '.' ::
        Calendar.padded 3 (ms % 1000) ++ ['Z']

end PagePress
