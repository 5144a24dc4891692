import PagePress.Number.Binary64

/-!
The shortest decimal that reads back as a given floating-point number, and its text. Among the
decimals of the fewest digits in the interval of reals that round to the number, the nearest one
is taken, a tie going to the even last digit.
-/

namespace PagePress.Number

/-- The decimal `digits * 10 ^ exponent`. -/
structure Decimal where
  digits : Nat
  exponent : Int
  deriving DecidableEq, Repr

namespace Shortest

/-- `digits * 10 ^ k` and `x * 2 ^ e` on one scale, to be compared as natural numbers. -/
def onScale (digits : Nat) (k : Int) (x : Nat) (e : Int) : Nat × Nat :=
  (digits * pow10 k.toNat * pow2 (-e).toNat, x * pow2 e.toNat * pow10 (-k).toNat)

/-- How many decimal digits stand before the point of `num / den`, negative for the zeros after
it: the least `p` with `num / den < 10 ^ p`. -/
def pointPosition (num den : Nat) : Int :=
  if den ≤ num then (Nat.toDigits 10 (num / den)).length
  else
    let places := (Nat.toDigits 10 (den / num)).length
    if den ≤ num * pow10 (places - 1) then 2 - places else 1 - places

/-- The mantissa's lower and upper bounds, in quarters of its unit. Just above a power of two
the numbers below are twice as dense. -/
def bounds (m : Nat) (e : Int) : Nat × Nat :=
  (if m = pow2 52 && Binary64.minExponent < e then 4 * m - 1 else 4 * m - 2, 4 * m + 2)

/-- The decimal `digits * 10 ^ k` rounds to `m * 2 ^ e`. The ends of the interval belong to it
when the mantissa is even. -/
def readsBack (m : Nat) (e : Int) (digits : Nat) (k : Int) : Bool :=
  let (low, high) := bounds m e
  let (a, b) := onScale digits k low (e - 2)
  let (c, d) := onScale digits k high (e - 2)
  if m % 2 = 0 then b ≤ a && c ≤ d else b < a && c < d

/-- The nearer of the two decimals `floor * 10 ^ k` and `(floor + 1) * 10 ^ k` that read back,
if one does. -/
def nearest? (m : Nat) (e : Int) (floor : Nat) (k : Int) : Option Nat :=
  match readsBack m e floor k, readsBack m e (floor + 1) k with
  | false, false => none
  | true, false => some floor
  | false, true => some (floor + 1)
  | true, true =>
    let (twice, exact) := onScale (2 * floor + 1) k (8 * m) (e - 2)
    if exact < twice then some floor
    else if twice < exact then some (floor + 1)
    else some (if floor % 2 = 0 then floor else floor + 1)

/-- Tries decimals of `count` digits, then of more, up to seventeen. -/
def search (m : Nat) (e : Int) (num den : Nat) (point : Int) : (left count : Nat) → Decimal
  | 0, _ => ⟨0, 0⟩
  | left + 1, count =>
    let k := point - count
    let floor := num * pow10 (-k).toNat / (den * pow10 k.toNat)
    match nearest? m e floor k with
    | some digits => ⟨digits, k⟩
    | none => search m e num den point left (count + 1)

/-- Moves the zeros at the end of the digits into the exponent. -/
def dropZeros (d : Decimal) : Decimal :=
  if d.digits = 0 then ⟨0, 0⟩
  else if d.digits % 10 = 0 then dropZeros ⟨d.digits / 10, d.exponent + 1⟩
  else d
termination_by d.digits
decreasing_by omega

end Shortest

/-- The shortest decimal that reads back as `m * 2 ^ e`, for a positive `m`. -/
def shortest (m : Nat) (e : Int) : Decimal :=
  let num := m * pow2 e.toNat
  let den := pow2 (-e).toNat
  Shortest.dropZeros (Shortest.search m e num den (Shortest.pointPosition num den) 17 1)

/-- How a decimal is written: positionally while its point stands from `least` to `greatest`
digits after the first one, in scientific notation otherwise. -/
structure Layout where
  least : Int
  greatest : Int
  /-- The least number of digits of an exponent. -/
  exponentWidth : Nat

/-- Values are written positionally from `0.0001` to below `10 ^ 16`, and an exponent has two
digits or more. -/
def valueLayout : Layout := ⟨-4, 15, 2⟩

/-- `text` with zeros in front up to `width` characters. -/
def padZeros (width : Nat) (text : List Char) : List Char :=
  List.replicate (width - text.length) '0' ++ text

/-- The text of `digits * 10 ^ exponent` with at least one digit on each side of the point, or
in scientific notation. -/
def Layout.write (n : Layout) (d : Decimal) : List Char :=
  let ds := Nat.toDigits 10 d.digits
  let first : Int := d.exponent + ds.length - 1
  if n.least ≤ first && first ≤ n.greatest then
    if 0 ≤ d.exponent then ds ++ List.replicate d.exponent.toNat '0' ++ ['.', '0']
    else if 0 ≤ first then
      ds.take (first.toNat + 1) ++ '.' :: ds.drop (first.toNat + 1)
    else '0' :: '.' :: List.replicate (-first - 1).toNat '0' ++ ds
  else
    let fraction := match ds.drop 1 with
      | [] => []
      | more => '.' :: more
    ds.take 1 ++ fraction ++ 'e' :: (if first < 0 then '-' else '+') ::
      padZeros n.exponentWidth (Nat.toDigits 10 first.natAbs)

/-- The text of a floating-point number. -/
def Binary64.text : Binary64 → String
  | .nan => "nan"
  | .infinite negative => if negative then "-inf" else "inf"
  | .finite negative m e =>
    let size := if m = 0 then ['0', '.', '0'] else valueLayout.write (shortest m e)
    .ofList (if negative then '-' :: size else size)

end PagePress.Number
