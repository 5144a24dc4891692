import PagePress.Yaml.Cursor

/-!
Octets in base 64: four characters for three octets, each character for six bits. Other characters
do not count; equals signs fill up the last group.
-/

namespace PagePress.Yaml.Octets

/-- The six bits of a character. -/
def sextet? (c : Char) : Option Nat :=
  let n := c.toNat
  if 'A' ≤ c && c ≤ 'Z' then some (n - 0x41)
  else if 'a' ≤ c && c ≤ 'z' then some (n - 0x47)
  else if c.isDigit then some (n + 4)
  else if c = '+' then some 62
  else if c = '/' then some 63
  else none

/-- The bits of a group that are still to be written, and how many characters and signs of filling
the group has. -/
structure Group where
  bits : Nat := 0
  size : Nat := 0
  filling : Nat := 0

/-- Decodes a text. After enough signs of filling the rest of the text does not count. -/
def decode? (g : Group) : List Char → Option (List UInt8)
  | [] => if g.size = 0 then some [] else none
  | c :: rest =>
    if c = '=' then
      if 2 ≤ g.size then
        if 4 ≤ g.size + g.filling + 1 then some []
        else decode? { g with filling := g.filling + 1 } rest
      else decode? g rest
    else
      match sextet? c with
      | none => decode? g rest
      | some n =>
        if g.size = 0 then decode? ⟨n, 1, 0⟩ rest
        else
          let bits := g.bits * 64 + n
          let left := 6 - 2 * g.size
          let octet := (bits >>> left).toUInt8
          (decode? ⟨bits % Number.pow2 left, (g.size + 1) % 4, 0⟩ rest).map (octet :: ·)

/-- The octets that a text of ASCII characters spells. -/
def read? (s : List Char) : Option (List UInt8) :=
  if s.all fun c => c.toNat < 0x80 then decode? {} s else none

end PagePress.Yaml.Octets
