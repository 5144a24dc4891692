import PagePress.Text.Case
import PagePress.Yaml.Octets
import PagePress.Yaml.Tag

/-!
Values of scalars. A tag decides how the text of a scalar is read; a text that does not fit its tag
is an error. Underscores in numbers do not count.
-/

namespace PagePress.Yaml

/-- The text of a number without underscores. -/
def dropMarks (s : List Char) : List Char := s.filter (· != '_')

/-- The whole number that a text spells in a base. -/
def wholeNumber (base : Nat) (s : List Char) : Except Error Int :=
  match Number.numeral? base s with
  | none => .error (.badInteger base s)
  | some (negative, ds) =>
    if base = 10 && Number.maxDigits < ds.length then .error (.longInteger ds.length)
    else .ok (Number.withSign negative (Number.ofDigits base ds))

/-- The size of a whole number without its sign. In the first version of the language a zero in
front stands for base eight, and colons for base sixty. -/
def wholeSize (version : Version) (size : List Char) : Except Error Int :=
  match size with
  | ['0'] => .ok 0
  | '0' :: 'b' :: ds => wholeNumber 2 ds
  | '0' :: 'x' :: ds => wholeNumber 16 ds
  | '0' :: 'o' :: ds => wholeNumber 8 ds
  | _ =>
    match version, size with
    | .second, _ => wholeNumber 10 size
    | .first, [] => .error .emptyNumber
    | .first, '0' :: _ => wholeNumber 8 size
    | .first, _ => do
      let parts ← (colonParts size).mapM (wholeNumber 10)
      return parts.foldl (fun n part => 60 * n + part) 0

/-- The whole number that a scalar stands for. -/
def integerValue (version : Version) (text : List Char) : Except Error Int := do
  let s := dropMarks text
  if s.isEmpty then throw .emptyNumber
  let (negative, size) := Number.takeSign s
  let n ← wholeSize version size
  return if negative then -n else n

/-- The floating-point number that a text spells. -/
def realNumber (s : List Char) : Except Error Number.Binary64 :=
  ((Number.readReal? s).map Except.ok).getD (.error (.badFloat s))

/-- The sum of numbers that count the first, second, third … power of sixty, the least one
first. -/
def sumSixties (base : Nat) (sum : Number.Binary64) : List Number.Binary64 → Number.Binary64
  | [] => sum
  | x :: rest => sumSixties (60 * base) (sum.add (x.mulNat base)) rest

/-- The floating-point number that a scalar stands for. -/
def floatValue (version : Version) (text : List Char) : Except Error Number.Binary64 := do
  let s := (Text.lowered (.ofList (dropMarks text))).toList
  if s.isEmpty then throw .emptyNumber
  let (negative, size) := Number.takeSign s
  let x ←
    if size == ".inf".toList then pure (.infinite false)
    else if size == ".nan".toList then pure .nan
    else if version == .first && size.contains ':' then do
      let parts ← (colonParts size).mapM realNumber
      pure (sumSixties 1 (.zero false) parts.reverse)
    else realNumber size
  return if negative then x.neg else x

/-- The words that a scalar marked as a truth value may be. -/
def truthValues : List (String × Bool) :=
  [("yes", true), ("no", false), ("y", true), ("n", false), ("true", true), ("false", false),
    ("on", true), ("off", false)]

/-- The value of a scalar with a tag. -/
def Tag.scalar (version : Version) (tag : Tag) (text : List Char) : Except Error Value :=
  match tag with
  | null => .ok .null
  | bool =>
    ((truthValues.lookup (Text.lowered (.ofList text))).map fun b => Except.ok (.bool b)).getD
      (.error .badTruth)
  | int => (integerValue version text).map .int
  | float => (floatValue version text).map .float
  | octets => ((Octets.read? text).map fun o => Except.ok (.bytes o)).getD (.error .badOctets)
  | moment =>
    ((WrittenMoment.read? (dropLineFeed text)).map WrittenMoment.value).getD (.error .unfitTag)
  | .text => .ok (.text (.ofList text))
  | list | map | ordered | pairs | set => .error .unfitTag
  | merge | value | unknown => .error .unknownTag

end PagePress.Yaml
