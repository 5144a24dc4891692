import PagePress.Number.Binary64
import PagePress.Number.Integer

/-!
Words that spell a number: a whole one behind the mark of its base, or a real, imaginary or complex
one in base ten. A real number is read as the nearest floating-point number. A word of this kind
with a hyphen in front is a negative number and not an option.
-/

namespace PagePress.Number

/-- What a word for a real number says. -/
inductive Numeral where
  | infinite (negative : Bool)
  | nan
  /-- The number `digits * 10 ^ exponent` with a sign. -/
  | decimal (negative : Bool) (digits : Nat) (exponent : Int)
  deriving DecidableEq, Repr

/-- The floating-point number nearest to a real number. -/
def Numeral.nearest : Numeral → Binary64
  | infinite negative => .infinite negative
  | nan => .nan
  | decimal negative digits exponent => .ofDecimal negative digits exponent

/-- The word with the digits of all scripts written as those of ASCII. -/
def plainDigits (s : List Char) : List Char :=
  s.map fun c => ((Text.digitValue? c).map fun d => Char.ofNat (0x30 + d)).getD c

/-- Takes the underscores out of a word in which each one stands between two digits. `previous` is
the character before the word. -/
def joinDigits? (previous : Char) : List Char → Option (List Char)
  | [] => if previous = '_' then none else some []
  | c :: rest =>
    if c = '_' then if previous.isDigit then joinDigits? c rest else none
    else if previous = '_' && !c.isDigit then none
    else (joinDigits? c rest).map (c :: ·)

/-- What follows a word that may be written in capitals. -/
def dropWord? (word s : List Char) : Option (List Char) :=
  if word.isPrefixOf (s.map Char.toLower) then some (s.drop word.length) else none

/-- The number that some decimal digits spell. -/
def decimalValue (ds : List Char) : Nat := ofDigits 10 (ds.filterMap Text.digitValue?)

/-- An exponent and what follows it. Where there is no whole one, nothing is taken. -/
def takeExponent (s : List Char) : Int × List Char :=
  match s with
  | c :: rest =>
    let (negative, ds) := takeSign rest
    if (c = 'e' || c = 'E') && ds.head?.any Char.isDigit then
      (withSign negative (decimalValue (ds.takeWhile Char.isDigit)), ds.dropWhile Char.isDigit)
    else (0, s)
  | [] => (0, [])

/-- The real number at the start of a text, and what follows it. -/
def takeReal? (s : List Char) : Option (Numeral × List Char) :=
  let (negative, size) := takeSign s
  match dropWord? "infinity".toList size, dropWord? "inf".toList size,
      dropWord? "nan".toList size with
  | some rest, _, _ => some (.infinite negative, rest)
  | none, some rest, _ => some (.infinite negative, rest)
  | none, none, some rest => some (.nan, rest)
  | none, none, none =>
    let whole := size.takeWhile Char.isDigit
    let after := size.dropWhile Char.isDigit
    let (fraction, after) := match after with
      | '.' :: rest => (rest.takeWhile Char.isDigit, rest.dropWhile Char.isDigit)
      | _ => ([], after)
    if whole.isEmpty && fraction.isEmpty then none
    else
      let (exponent, rest) := takeExponent after
      some (.decimal negative (decimalValue (whole ++ fraction)) (exponent - fraction.length),
        rest)

/-- The floating-point number that a text spells, with white space around it. -/
def readReal? (text : List Char) : Option Binary64 := do
  let word ← joinDigits? '\x00' (plainDigits (Text.trim text))
  match ← takeReal? word with
  | (x, []) => return x.nearest
  | _ => none

/-- The text is the mark of the imaginary unit and white space after it. -/
def isUnit : List Char → Bool
  | c :: rest => (c = 'j' || c = 'J') && rest.all Text.isBlank
  | [] => false

/-- The text spells a real, imaginary or complex number, with nothing but white space after it. -/
def isComplex (s : List Char) : Bool :=
  match takeReal? s with
  | none => isUnit (takeSign s).2
  | some (_, []) => true
  | some (_, c :: rest) =>
    if c = '-' || c = '+' then
      isUnit (((takeReal? (c :: rest)).map Prod.snd).getD rest)
    else isUnit (c :: rest) || (c :: rest).all Text.isBlank

/-- The text spells a whole number behind the mark of its base. -/
def isMarked (s : List Char) : Bool :=
  [2, 8, 16].any fun base =>
    let size := (takeSign (Text.trim s)).2
    (numeral? base s).isSome && dropMark base size != size

/-- The word spells a number. -/
def isNumeral (word : List Char) : Bool :=
  (joinDigits? '\x00' (plainDigits word)).any isComplex || isMarked word

end PagePress.Number
