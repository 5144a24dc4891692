import PagePress.Value
import PagePress.Yaml.Cursor

/-!
Dates and moments as words of a document: a date alone, or a date with a time behind a `T` or some
blanks, and the offset of a time zone or a `Z` for UTC.
-/

namespace PagePress.Yaml

/-- The parts of a time as it is written. -/
structure WrittenTime where
  hour : List Char
  minute : List Char
  second : List Char
  fraction : List Char
  /-- The name of the time zone. -/
  zone : Option (List Char)
  deriving DecidableEq, Repr

/-- The parts of a date or a moment as it is written. -/
structure WrittenMoment where
  year : List Char
  month : List Char
  day : List Char
  time : Option WrittenTime
  deriving DecidableEq, Repr

/-- Takes digits from the start of a text, as many as it has within two bounds. -/
def takeDigits? (least most : Nat) (s : List Char) : Option (List Char × List Char) :=
  let ds := (s.takeWhile Char.isDigit).take most
  if least ≤ ds.length then some (ds, s.drop ds.length) else none

/-- What follows a character at the start of a text. -/
def drop? (c : Char) (s : List Char) : Option (List Char) :=
  match s with
  | d :: rest => if c = d then some rest else none
  | [] => none

/-- What follows the mark between a date and a time. -/
def dropTimeMark? (s : List Char) : Option (List Char) :=
  match s with
  | c :: rest =>
    if c = 'T' || c = 't' then some rest
    else if isBlank c then some (rest.dropWhile isBlank)
    else none
  | [] => none

/-- The text is the offset of a time zone. -/
def isOffset (s : List Char) : Bool :=
  match s with
  | c :: rest =>
    (c = '+' || c = '-') &&
      match takeDigits? 1 2 rest with
      | some (_, []) => true
      | some (_, ':' :: minutes) => minutes.length = 2 && minutes.all Char.isDigit
      | _ => false
  | [] => false

/-- Reads the time zone at the end of a moment, where there may be none. -/
def readZone? (s : List Char) : Option (Option (List Char)) :=
  let zone := s.dropWhile isBlank
  if s.isEmpty then some none
  else if zone == ['Z'] || isOffset zone then some (some zone)
  else none

/-- Reads the time behind a date. -/
def readTime? (s : List Char) : Option WrittenTime := do
  let (hour, s) ← takeDigits? 1 2 (← dropTimeMark? s)
  let (minute, s) ← takeDigits? 2 2 (← drop? ':' s)
  let (second, s) ← takeDigits? 2 2 (← drop? ':' s)
  let (fraction, s) := match s with
    | '.' :: rest => (rest.takeWhile Char.isDigit, rest.dropWhile Char.isDigit)
    | _ => ([], s)
  return { hour, minute, second, fraction, zone := ← readZone? s }

namespace WrittenMoment

/-- Reads a date or a moment. -/
def read? (word : List Char) : Option WrittenMoment := do
  let (year, s) ← takeDigits? 4 4 word
  let (month, s) ← takeDigits? 1 2 (← drop? '-' s)
  let (day, s) ← takeDigits? 1 2 (← drop? '-' s)
  if s.isEmpty then return { year, month, day, time := none }
  else return { year, month, day, time := some (← readTime? s) }

/-- A word of this form is a date or a moment without being marked as one. A date alone needs two
digits for the month and the day. -/
def isPlain (w : WrittenMoment) : Bool :=
  w.time.isSome || (w.month.length = 2 && w.day.length = 2)

end WrittenMoment

/-- The microseconds of a fraction, rounded at the seventh digit. -/
def microseconds (fraction : List Char) : Nat :=
  let six := fraction.take 6
  let n := Number.decimalValue (six ++ List.replicate (6 - six.length) '0')
  if (fraction.drop 6).head?.any ('4' < ·) then n + 1 else n

/-- The time zone of a name. -/
def zoneOf (name : List Char) : Calendar.Zone :=
  match name with
  | sign :: rest =>
    let hours := rest.takeWhile (· != ':')
    let minutes := (rest.dropWhile (· != ':')).drop 1
    let size := Number.decimalValue hours * 3600 + Number.decimalValue minutes * 60
    ⟨Number.withSign (sign = '-') (if sign = 'Z' then 0 else size), .ofList name⟩
  | [] => ⟨0, ""⟩

/-- The value of a date or a moment that the calendar has. A fraction that is rounded up to a whole
second moves the moment on. -/
def WrittenMoment.value (w : WrittenMoment) : Except Error Value := do
  let date : Calendar.Date :=
    ⟨Number.decimalValue w.year, Number.decimalValue w.month, Number.decimalValue w.day⟩
  match w.time with
  | none =>
    date.check.mapError .calendar
    return .date date
  | some t =>
    let us := microseconds t.fraction
    let time : Calendar.Time :=
      ⟨Number.decimalValue t.hour, Number.decimalValue t.minute, Number.decimalValue t.second,
        if us < 1000000 then us else 0⟩
    let m : Calendar.Moment := ⟨date, time, t.zone.map zoneOf⟩
    m.check.mapError .calendar
    if us < 1000000 then return .moment m
    else
      match m.nextSecond? with
      | some m => return .moment m
      | none => throw .pastCalendar

end PagePress.Yaml
