/-!
Sizes of a text in the two encodings that matter outside it: UTF-16 code units, which the
rolling hash reads, and UTF-8 bytes, which a stored document takes.
-/

namespace PagePress.Text

/-- The UTF-16 code units of a character: two above the basic plane. -/
def charUnits (c : Char) : List Nat :=
  let n := c.toNat
  if n < 0x10000 then [n]
  else [0xD800 + (n - 0x10000) / 0x400, 0xDC00 + (n - 0x10000) % 0x400]

/-- The UTF-16 code units of a text. -/
def units (s : List Char) : List Nat := s.flatMap charUnits

/-- The UTF-8 bytes of a character. -/
def charBytes (c : Char) : List Nat :=
  let n := c.toNat
  if n < 0x80 then [n]
  else if n < 0x800 then [0xC0 + n / 0x40, 0x80 + n % 0x40]
  else if n < 0x10000 then [0xE0 + n / 0x1000, 0x80 + n / 0x40 % 0x40, 0x80 + n % 0x40]
  else [0xF0 + n / 0x40000, 0x80 + n / 0x1000 % 0x40, 0x80 + n / 0x40 % 0x40, 0x80 + n % 0x40]

/-- How many bytes the text takes in UTF-8. -/
def byteSize (s : List Char) : Nat := s.foldl (fun size c => size + c.utf8Size) 0

end PagePress.Text
