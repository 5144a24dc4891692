import PagePress.Yaml.Moment
import PagePress.Yaml.Property

/-!
Tags: what a node stands for. A node without a tag of its own has the tag of its form; a plain
scalar stands for null, a truth value, a number or a moment when it is a word for one, and for
itself otherwise. The two versions of the language differ in their words.
-/

namespace PagePress.Yaml

/-- What a node stands for. -/
inductive Tag where
  | null
  | bool
  | int
  | float
  | octets
  | moment
  | text
  | list
  | map
  | ordered
  | pairs
  | set
  /-- The key of mappings that are merged into another one. -/
  | merge
  /-- The key of the value that counts for a whole mapping. -/
  | value
  /-- A tag that is not known. -/
  | unknown
  deriving DecidableEq, Repr

namespace Tag

/-- The start of the names of the tags that are known. -/
def core : String := "tag:yaml.org,2002:"

/-- The known tags after the start of their names. -/
def names : List (String × Tag) :=
  [("null", null), ("bool", bool), ("int", int), ("float", float), ("binary", octets),
    ("timestamp", moment), ("str", text), ("seq", list), ("map", map), ("omap", ordered),
    ("pairs", pairs), ("set", set), ("merge", merge), ("value", value)]

/-- The tag of a full name. -/
def ofName (name : String) : Tag :=
  if core.toList.isPrefixOf name.toList then
    (names.lookup (.ofList (name.toList.drop core.length))).getD unknown
  else unknown

end Tag

/-! ### Words of a plain scalar -/

/-- A digit or an underscore, which may stand between digits. -/
def isDigitOr (c : Char) : Bool := c.isDigit || c == '_'

/-- The words for null. -/
def nullWords : List String := ["", "~", "null", "Null", "NULL"]

/-- The words for truth values. -/
def truthWords : Version → List String
  | .second => ["true", "True", "TRUE", "false", "False", "FALSE"]
  | .first =>
    ["y", "Y", "yes", "Yes", "YES", "n", "N", "no", "No", "NO", "true", "True", "TRUE", "false",
      "False", "FALSE", "on", "On", "ON", "off", "Off", "OFF"]

/-- The text is an exponent; `signed` asks for a sign. -/
def isExponent (signed : Bool) (s : List Char) : Bool :=
  match s with
  | [] => false
  | c :: rest =>
    let ds := (Number.takeSign rest).2
    (c = 'e' || c = 'E') && !ds.isEmpty && ds.all Char.isDigit &&
      (!signed || ds.length != rest.length)

/-- The pieces of a text between colons. -/
def colonParts : List Char → List (List Char)
  | [] => [[]]
  | c :: rest =>
    match colonParts rest with
    | [] => [[c]]
    | part :: parts => if c = ':' then [] :: part :: parts else (c :: part) :: parts

/-- A number below sixty with one or two digits. -/
def isSixtieth (s : List Char) : Bool :=
  match s with
  | [a] => a.isDigit
  | [a, b] => '0' ≤ a && a ≤ '5' && b.isDigit
  | _ => false

/-- A number with digits after the first one, which may be underscores. -/
def isWhole (s : List Char) : Bool := s.head?.any Char.isDigit && s.all isDigitOr

/-- The text is a number in base sixty, with a point at its end and digits after it if
`pointed`. -/
def isSexagesimal (pointed : Bool) (s : List Char) : Bool :=
  match colonParts s with
  | first :: rest =>
    match rest.getLast? with
    | none => false
    | some last =>
      let whole := last.takeWhile (· != '.')
      let after := last.dropWhile (· != '.')
      isWhole first && rest.dropLast.all isSixtieth && isSixtieth whole &&
        (if pointed then !after.isEmpty && after.tail.all isDigitOr else after.isEmpty) &&
        (pointed || first.head? != some '0')
  | [] => false

/-- The word is a floating-point number: one with a point or an exponent, an infinity, or the mark
for no number. -/
def isFloatWord (version : Version) (word : List Char) : Bool :=
  let size := (Number.takeSign word).2
  if [".inf".toList, ".Inf".toList, ".INF".toList].contains size then true
  else if [".nan".toList, ".NaN".toList, ".NAN".toList].contains word then true
  else
    let whole := size.takeWhile isDigitOr
    match size.dropWhile isDigitOr with
    | '.' :: rest =>
      let fraction := rest.takeWhile isDigitOr
      let after := rest.dropWhile isDigitOr
      if whole.isEmpty then
        !fraction.isEmpty && (after.isEmpty || isExponent true after) &&
          (version == .second || size.length == word.length)
      else isWhole whole && (after.isEmpty || isExponent false after)
    | after =>
      (isWhole whole && isExponent false after) || (version == .first && isSexagesimal true size)

/-- The word is a whole number: decimal, or in base 2, 8 or 16 behind a mark. -/
def isIntWord (version : Version) (word : List Char) : Bool :=
  let size := (Number.takeSign word).2
  let digits (isDigit : Char → Bool) (ds : List Char) : Bool :=
    !ds.isEmpty && ds.all fun c => isDigit c || c == '_'
  let isOctal := fun c : Char => '0' ≤ c && c ≤ '7'
  word.head? != some '_' &&
    match size with
    | '0' :: 'b' :: ds => digits (fun c => c == '0' || c == '1') ds
    | '0' :: 'x' :: ds => digits (fun c => (Text.hexValue? c).isSome) ds
    | '0' :: 'o' :: ds => version == .second && digits isOctal ds
    | ds =>
      match version with
      | .second => digits Char.isDigit ds
      | .first =>
        digits isOctal ds || (isWhole ds && ds.head? != some '0') || isSexagesimal false ds

/-- The word without one line feed at its end. -/
def dropLineFeed (word : List Char) : List Char :=
  if word.getLast? == some '\n' then word.dropLast else word

/-- The tag of a plain scalar. -/
def Tag.ofPlain (version : Version) (text : List Char) : Tag :=
  let word := dropLineFeed text
  let s := String.ofList word
  if nullWords.contains s then null
  else if (truthWords version).contains s then bool
  else if isFloatWord version word then float
  else if isIntWord version word then int
  else if (WrittenMoment.read? word).any WrittenMoment.isPlain then moment
  else if s == "<<" then merge
  else if s == "=" then value
  else if ["!", "&", "*"].contains s then unknown
  else .text

end PagePress.Yaml
