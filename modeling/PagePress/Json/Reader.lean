import PagePress.Json.Literal
import PagePress.Value

/-!
Reading of JSON. A number written with a point or an exponent is a floating-point number, any
other one is a whole number of any size. Of two entries with one key the later value stands, at
the earlier place.
-/

namespace PagePress.Json

def isSpace (c : Char) : Bool := c == ' ' || c == '\t' || c == '\n' || c == '\r'

def skipSpace (s : List Char) : List Char := s.dropWhile isSpace

/-- Puts an entry into a mapping: in place of the one with the same text key, or at the end. -/
def putEntry (key : String) (v : Value) : List (Value × Value) → List (Value × Value)
  | [] => [(.text key, v)]
  | (.text k, w) :: rest =>
    if k = key then (.text k, v) :: rest else (.text k, w) :: putEntry key v rest
  | entry :: rest => entry :: putEntry key v rest

/-- The number that some decimal digits spell. -/
def decimal (ds : List Char) : Nat := ds.foldl (fun n d => 10 * n + (d.toNat - 0x30)) 0

/-- Reads the exponent of a number, zero if there is none. -/
def readExponent (s : List Char) : Option (Int × List Char) :=
  match s with
  | 'e' :: rest | 'E' :: rest =>
    let (negative, rest) := match rest with
      | '-' :: rest => (true, rest)
      | '+' :: rest => (false, rest)
      | rest => (false, rest)
    let ds := rest.takeWhile Char.isDigit
    if ds.isEmpty then none
    else some (if negative then -(decimal ds : Int) else decimal ds, rest.dropWhile Char.isDigit)
  | _ => none

/-- Reads an unsigned number. -/
def readNumber? (negative : Bool) (s : List Char) : Option (Value × List Char) :=
  let whole := s.takeWhile Char.isDigit
  let rest := s.dropWhile Char.isDigit
  if whole.isEmpty then none
  else
    let (fraction, afterPoint) := match rest with
      | '.' :: more => (more.takeWhile Char.isDigit, more.dropWhile Char.isDigit)
      | _ => ([], rest)
    let rest := if fraction.isEmpty then rest else afterPoint
    match readExponent rest with
    | some (e, rest) =>
      some (.float (.ofDecimal negative (decimal (whole ++ fraction)) (e - fraction.length)), rest)
    | none =>
      if fraction.isEmpty then
        some (.int (if negative then -(decimal whole : Int) else decimal whole), rest)
      else
        some (.float (.ofDecimal negative (decimal (whole ++ fraction)) (-fraction.length)), rest)

/-- Reads one of the three fixed words. -/
def readWord? (s : List Char) : Option (Value × List Char) :=
  match s with
  | 'n' :: 'u' :: 'l' :: 'l' :: rest => some (.null, rest)
  | 't' :: 'r' :: 'u' :: 'e' :: rest => some (.bool true, rest)
  | 'f' :: 'a' :: 'l' :: 's' :: 'e' :: rest => some (.bool false, rest)
  | _ => none

mutual

/-- Reads a value and answers with what follows it. The fuel bounds the number of steps. -/
def readValue? : (fuel : Nat) → List Char → Option (Value × List Char)
  | 0, _ => none
  | fuel + 1, s =>
    match skipSpace s with
    | '"' :: rest => do
      let (t, rest) ← readString? rest
      return (.text (.ofList t), rest)
    | '[' :: rest =>
      match skipSpace rest with
      | ']' :: rest => some (.list [], rest)
      | rest => do
        let (items, rest) ← readItems? fuel rest
        return (.list items, rest)
    | '\x7b' :: rest =>
      match skipSpace rest with
      | '\x7d' :: rest => some (.map [], rest)
      | rest => do
        let (entries, rest) ← readEntries? fuel [] rest
        return (.map entries, rest)
    | '-' :: rest => readNumber? true rest
    | rest => (readWord? rest).orElse fun _ => readNumber? false rest

/-- Reads the items of a list up to its closing bracket. -/
def readItems? : (fuel : Nat) → List Char → Option (List Value × List Char)
  | 0, _ => none
  | fuel + 1, s => do
    let (v, rest) ← readValue? fuel s
    match skipSpace rest with
    | ',' :: rest =>
      let (items, rest) ← readItems? fuel rest
      return (v :: items, rest)
    | ']' :: rest => return ([v], rest)
    | _ => none

/-- Reads the entries of a mapping up to its closing brace and puts them after those read
before. -/
def readEntries? :
    (fuel : Nat) → List (Value × Value) → List Char → Option (List (Value × Value) × List Char)
  | 0, _, _ => none
  | fuel + 1, entries, s =>
    match skipSpace s with
    | '"' :: rest => do
      let (key, rest) ← readString? rest
      match skipSpace rest with
      | ':' :: rest =>
        let (v, rest) ← readValue? fuel rest
        let entries := putEntry (.ofList key) v entries
        match skipSpace rest with
        | ',' :: rest => readEntries? fuel entries rest
        | '\x7d' :: rest => return (entries, rest)
        | _ => none
      | _ => none
    | _ => none

end

/-- Reads a text that holds one JSON value and nothing else. Each step takes a character, so the
length of the text bounds their number. -/
def read? (s : List Char) : Option Value :=
  match readValue? (s.length + 1) s with
  | some (v, rest) => if (skipSpace rest).isEmpty then some v else none
  | none => none

end PagePress.Json
