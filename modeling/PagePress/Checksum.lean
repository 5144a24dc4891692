import PagePress.Text.Units

/-!
Short keys that tell two texts apart: a rolling hash of the UTF-16 units of a text, written in
base 36. The hash is the one that browsers compute with 32-bit arithmetic, so a key made here
agrees with a key made in a page.
-/

namespace PagePress.Checksum

/-- One step of the rolling hash, in 32-bit arithmetic. -/
def step (hash unit : Nat) : Nat := (31 * hash + unit) % 0x100000000

/-- The size of a 32-bit word read as a signed number. -/
def signedSize (word : Nat) : Nat := if 0x80000000 ≤ word then 0x100000000 - word else word

/-- The rolling hash of a text. -/
def rollingHash (s : List Char) : Nat := signedSize ((Text.units s).foldl step 0)

/-- The digit of a number below thirty-six. -/
def digit (n : Nat) : Char := if n < 10 then .ofNat (0x30 + n) else .ofNat (0x57 + n)

/-- The digits of a number in base 36, in front of `tail`; none for zero. -/
def digitsBefore (n : Nat) (tail : List Char) : List Char :=
  if n = 0 then tail else digitsBefore (n / 36) (digit (n % 36) :: tail)
termination_by n
decreasing_by omega

/-- A number in base 36 with lower-case digits. -/
def base36 (n : Nat) : List Char := if n = 0 then ['0'] else digitsBefore n []

/-- A negative number has no text in base 36. -/
structure Negative where
  number : Int

def Negative.message (e : Negative) : String :=
  "base36 expects a non-negative integer, got " ++ toString e.number

/-- The text of a number in base 36, or an error for a negative one. -/
def base36? (n : Int) : Except Negative (List Char) :=
  if n < 0 then .error ⟨n⟩ else .ok (base36 n.toNat)

/-- The key of a text. -/
def checksum (s : List Char) : List Char := base36 (rollingHash s)

end PagePress.Checksum
