import PagePress.Number.Numeral
import PagePress.Toml.Data

/-!
Scalars of a TOML file: the four forms of strings, numbers, truth values, dates and times.
-/

namespace PagePress.Toml

/-- Why a text is no TOML file. -/
inductive Error where
  | malformed
  /-- A character that may not stand where it does, and what follows it. -/
  | unexpected (rest : List Char)
  /-- A key is given twice inside one table. -/
  | repeatedKey
  /-- A table that dotted keys have made gets a heading of its own. -/
  | redefinition
  | tooDeep
  deriving DecidableEq, Repr

/-- Fails as malformed where nothing could be read. -/
def orMalformed {α : Type} : Option α → Except Error α
  | some a => .ok a
  | none => .error .malformed

/-- A control character that may not stand in a file. -/
def isForbidden (c : Char) : Bool := (c.toNat < 0x20 && c != '\t' && c != '\n') || c.toNat == 0x7F

/-! ### Strings -/

/-- The character of a two-character escape. -/
def escape? (c : Char) : Option Char :=
  let table : List (Char × Char) :=
    [('b', '\x08'), ('t', '\t'), ('n', '\n'), ('f', '\x0c'), ('r', '\r'), ('e', '\x1b'), ('"', '"'),
      ('\\', '\\')]
  table.lookup c

/-- How many digits the escape of a code point has. -/
def escapeWidth? (c : Char) : Option Nat :=
  if c = 'x' then some 2 else if c = 'u' then some 4 else if c = 'U' then some 8 else none

/-- Reads the escape after a backslash. -/
def readEscape? (s : List Char) : Option (Char × List Char) := do
  let c ← s.head?
  match escape? c with
  | some x => return (x, s.tail)
  | none =>
    let width ← escapeWidth? c
    let ds := s.tail.take width
    if ds.length != width then none
    else
      let (negative, digits) ← Number.numeral? 16 ds
      let n := Number.ofDigits 16 digits
      if n.isValidChar && !(negative && n != 0) then return (.ofNat n, s.tail.drop width) else none

/-- Reads a string between double quotes on one line. -/
def readBasic : (fuel : Nat) → List Char → Option (List Char × List Char)
  | 0, _ => none
  | fuel + 1, s =>
    match s with
    | [] => none
    | '"' :: rest => some ([], rest)
    | '\\' :: rest => do
      let (c, rest) ← readEscape? rest
      let (t, rest) ← readBasic fuel rest
      return (c :: t, rest)
    | c :: rest =>
      if c = '\n' || isForbidden c then none
      else (readBasic fuel rest).map fun (t, rest) => (c :: t, rest)

/-- Reads a string between single quotes on one line. -/
def readLiteral : List Char → Option (List Char × List Char)
  | [] => none
  | '\'' :: rest => some ([], rest)
  | c :: rest =>
    if c = '\n' || isForbidden c then none
    else (readLiteral rest).map fun (t, rest) => (c :: t, rest)

/-- Reads a string between three quotes of a kind, which may hold newlines and, at its end, up to
two further quotes. Between double quotes a backslash starts an escape, and one at the end of a
line takes away the white space that follows. -/
def readLong (mark : Char) : (fuel : Nat) → List Char → Option (List Char × List Char)
  | 0, _ => none
  | fuel + 1, s =>
    match s with
    | [] => none
    | c :: rest =>
      if c = mark then
        let quotes := s.takeWhile (· == mark)
        let n := quotes.length
        if n < 3 then
          (readLong mark fuel (s.drop n)).map fun (t, rest) => (quotes ++ t, rest)
        else if n < 6 then some (quotes.drop 3, s.drop n)
        else none
      else if c = '\\' && mark = '"' then
        let blank := rest.dropWhile fun x => x == ' ' || x == '\t'
        match blank with
        | '\n' :: _ =>
          readLong mark fuel (blank.dropWhile fun x => x == ' ' || x == '\t' || x == '\n')
        | _ => do
          let (x, rest) ← readEscape? rest
          let (t, rest) ← readLong mark fuel rest
          return (x :: t, rest)
      else if isForbidden c then none
      else (readLong mark fuel rest).map fun (t, rest) => (c :: t, rest)

/-- A newline right after the opening quotes of a long string is not part of it. -/
def dropFirstNewline : List Char → List Char
  | '\n' :: rest => rest
  | s => s

/-- The text begins with three quotes of a kind. -/
def isLong : List Char → Bool
  | '"' :: '"' :: '"' :: _ | '\'' :: '\'' :: '\'' :: _ => true
  | _ => false

/-- Reads a string of any form. The fuel has to exceed the number of characters that are left. -/
def readString? (fuel : Nat) (s : List Char) : Option (List Char × List Char) :=
  match s with
  | '"' :: '"' :: '"' :: rest => readLong '"' fuel (dropFirstNewline rest)
  | '\'' :: '\'' :: '\'' :: rest => readLong '\'' fuel (dropFirstNewline rest)
  | '"' :: rest => readBasic fuel rest
  | '\'' :: rest => readLiteral rest
  | _ => none

/-! ### Numbers -/

/-- The base that the mark of a number names. -/
def baseOf : List Char → Nat
  | '0' :: 'b' :: _ => 2
  | '0' :: 'o' :: _ => 8
  | '0' :: 'x' :: _ => 16
  | _ => 10

/-- A digit of a base. -/
def isDigitIn (base : Nat) (c : Char) : Bool := (Text.hexValue? c).any (· < base)

/-- Takes the underscores out of a number in which each one stands between two digits. -/
def joinDigits? (base : Nat) (afterDigit : Bool) : List Char → Option (List Char)
  | [] => some []
  | c :: rest =>
    if c = '_' then
      if afterDigit && rest.head?.any (isDigitIn base) then joinDigits? base false rest else none
    else (joinDigits? base (isDigitIn base c) rest).map (c :: ·)

/-- A number may not begin with these characters: no zeros in front of digits, no sign in front of
a point or the mark of a base. -/
def startsBadly (signed : Bool) (size : List Char) : Bool :=
  match size with
  | '0' :: c :: _ =>
    if ['o', 'x', 'b'].contains c then signed else !(c = '.' || c = 'e')
  | '.' :: _ :: _ => signed
  | _ => false

/-- A point stands in front of digits and behind some. -/
def endsInPoint (size : List Char) : Bool :=
  size.getLast? == some '.' ||
    (baseOf size != 16 && (size.takeWhile fun c => c != 'e' && c != 'E').getLast? == some '.')

/-- The number that a word spells: a whole one in its base if it can be read so, and otherwise a
floating-point number. -/
def number? (word : List Char) : Option Value := do
  let (negative, size) := Number.takeSign word
  if startsBadly (size.length != word.length) size then none
  else
    let base := baseOf size
    let size ← joinDigits? base false size
    if endsInPoint size then none
    else
      let sign := if negative then ['-'] else []
      match Number.numeral? base (sign ++ size) with
      | some (negative, ds) =>
        if base = 10 && Number.maxDigits < ds.length then
          (Number.readReal? (sign ++ size)).map .float
        else return .int (Number.withSign negative (Number.ofDigits base ds))
      | none => (Number.readReal? (sign ++ size)).map .float

/-! ### Dates and times -/

/-- Takes exactly two digits from the start of a text. -/
def takeTwo? (s : List Char) : Option (Nat × List Char) :=
  match s with
  | a :: b :: rest =>
    if a.isDigit && b.isDigit then some (Number.decimalValue [a, b], rest) else none
  | _ => none

/-- What follows a character at the start of a text. -/
def drop? (c : Char) (s : List Char) : Option (List Char) :=
  match s with
  | d :: rest => if c = d then some rest else none
  | [] => none

/-- Takes a date that the calendar has from the start of a text. -/
def takeDate? (s : List Char) : Option (Calendar.Date × List Char) := do
  let year := s.takeWhile Char.isDigit
  if year.isEmpty then none
  else
    let (month, rest) ← takeTwo? (← drop? '-' (s.drop year.length))
    let (day, rest) ← takeTwo? (← drop? '-' rest)
    let d : Calendar.Date := ⟨Number.decimalValue year, month, day⟩
    if d.check.toBool then return (d, rest) else none

/-- Takes a time of the day, whose seconds may be missing, from the start of a text. -/
def takeTime? (s : List Char) : Option (Calendar.Time × List Char) := do
  let (hour, rest) ← takeTwo? s
  let (minute, rest) ← takeTwo? (← drop? ':' rest)
  let (second, fraction, rest) ← match rest with
    | ':' :: rest => do
      let (second, rest) ← takeTwo? rest
      match rest with
      | '.' :: rest =>
        let ds := rest.takeWhile Char.isDigit
        if ds.isEmpty then none else pure (second, ds, rest.drop ds.length)
      | _ => pure (second, [], rest)
    | _ => pure (0, [], rest)
  let six := fraction.take 6 ++ List.replicate (6 - fraction.length) '0'
  let t : Calendar.Time := ⟨hour, minute, second, Number.decimalValue six⟩
  if t.check.toBool then return (t, rest) else none

/-- The time zone at the end of a moment, where there may be none. -/
def readZone? (s : List Char) : Option (Option Calendar.Zone) := do
  match s with
  | [] => return none
  | ['Z'] | ['z'] => return some ⟨0, "UTC"⟩
  | sign :: rest =>
    let (hour, rest) ← takeTwo? rest
    let (minute, rest) ← takeTwo? (← drop? ':' rest)
    if (sign = '+' || sign = '-') && hour < 24 && minute < 60 && rest.isEmpty then
      return some ⟨Number.withSign (sign = '-') (hour * 3600 + minute * 60), .ofList s⟩
    else none

/-- The moment that a word spells: a date and a time with a `T` or a space between them. -/
def readMoment? (word : List Char) : Option Calendar.Moment := do
  let (date, rest) ← takeDate? word
  match rest with
  | c :: rest =>
    if c = 'T' || c = 't' || c = ' ' then
      let (time, rest) ← takeTime? rest
      return ⟨date, time, ← readZone? rest⟩
    else none
  | [] => none

/-- A character that ends a number, a date or a time. -/
def endsWord (c : Char) : Bool := [' ', '\t', '\n', '\r', '#', ',', ']', '\x7d'].contains c

/-- Reads a number, a date or a time. A date may be followed by a space and a time. -/
def readWord? (s : List Char) : Option (Data × List Char) := do
  let word := s.takeWhile fun c => !endsWord c
  let rest := s.dropWhile fun c => !endsWord c
  match takeDate? word, takeTime? word with
  | some (date, []), _ =>
    let more := rest.takeWhile fun c => c == ' ' || !endsWord c
    let time := Text.trimEnd more
    let rest := rest.drop more.length
    if time.isEmpty then return (.date date, rest)
    else return (.moment (← readMoment? (word ++ time)), rest)
  | some _, _ => return (.moment (← readMoment? word), rest)
  | none, some (time, []) => return (.time time, rest)
  | none, _ => return (.value (← number? word), rest)

end PagePress.Toml
