import PagePress.Text.Blank
import PagePress.Text.Digit
import PagePress.Text.Hex

/-!
Whole numbers as text, in any base up to sixteen: white space around the number, a sign, the mark
of the base where it has one, digits of any script and single underscores between digits.
-/

namespace PagePress.Number

/-- The value of a digit in a base. -/
def digitIn? (base : Nat) (c : Char) : Option Nat :=
  ((Text.digitValue? c).orElse fun _ => Text.hexValue? c).filter (· < base)

/-- The digits of a numeral with single underscores allowed between two of them; nothing when
the text has any other form. -/
def digits? (base : Nat) : List Char → Option (List Nat)
  | [] => none
  | [c] => (digitIn? base c).map ([·])
  | c :: '_' :: rest => do return (← digitIn? base c) :: (← digits? base rest)
  | c :: rest => do return (← digitIn? base c) :: (← digits? base rest)

/-- The number that some digits spell in a base. -/
def ofDigits (base : Nat) (ds : List Nat) : Nat := ds.foldl (fun n d => base * n + d) 0

/-- The longest numeral that is read as a whole number in base ten. -/
def maxDigits : Nat := 4300

/-- A sign and what follows it. -/
def takeSign : List Char → Bool × List Char
  | '-' :: rest => (true, rest)
  | '+' :: rest => (false, rest)
  | s => (false, s)

/-- What follows the mark of a base, if there is one. -/
def dropMark (base : Nat) (s : List Char) : List Char :=
  match s with
  | '0' :: mark :: rest =>
    let marks : List (Char × Nat) := [('b', 2), ('o', 8), ('x', 16)]
    if marks.lookup mark.toLower == some base then
      match rest with
      | '_' :: rest => rest
      | _ => rest
    else s
  | _ => s

/-- The sign and the digits of the whole number that a text spells in a base. -/
def numeral? (base : Nat) (text : List Char) : Option (Bool × List Nat) :=
  let (negative, size) := takeSign (Text.trim text)
  (digits? base (dropMark base size)).map (negative, ·)

/-- A whole number from its sign and its size. -/
def withSign (negative : Bool) (size : Nat) : Int := if negative then -(size : Int) else size

/-- Reads the whole number that a text spells in base ten. -/
def readInteger? (text : List Char) : Option Int :=
  match numeral? 10 text with
  | none => none
  | some (negative, ds) =>
    if maxDigits < ds.length then none else some (withSign negative (ofDigits 10 ds))

end PagePress.Number
