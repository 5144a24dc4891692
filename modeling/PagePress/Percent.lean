import PagePress.Text.Units

/-!
Percent encoding: a text as part of an address. Letters, digits, the four marks `_.-~` and the
slash stand for themselves; of any other character every UTF-8 byte is written as two capital
hexadecimal digits after a percent sign.
-/

namespace PagePress.Percent

/-- A character that stands for itself. -/
def isUnreserved (c : Char) : Bool :=
  c.isAlphanum || c == '_' || c == '.' || c == '-' || c == '~' || c == '/'

/-- The hexadecimal digit of a number below sixteen. -/
def digit (n : Nat) : Char := if n < 10 then .ofNat (0x30 + n) else .ofNat (0x37 + n)

def encodeByte (b : Nat) : List Char := ['%', digit (b / 16), digit (b % 16)]

def encodeChar (c : Char) : List Char :=
  if isUnreserved c then [c] else (Text.charBytes c).flatMap encodeByte

/-- A text as part of an address. -/
def encode (s : List Char) : List Char := s.flatMap encodeChar

end PagePress.Percent
