import PagePress.Number.Rounding

/-!
The binary floating-point numbers of 64 bits, as exact values. A finite number is a whole
mantissa below `2 ^ 53` times a power of two not below `2 ^ -1074`; every operation computes
the exact result and rounds it once, to the nearest number, a tie to the even mantissa.
-/

namespace PagePress.Number

/-- `mantissa * 2 ^ exponent` with a sign, an infinity, or no number. -/
inductive Binary64 where
  | finite (negative : Bool) (mantissa : Nat) (exponent : Int)
  | infinite (negative : Bool)
  | nan
  deriving DecidableEq, Repr, Inhabited

namespace Binary64

/-- The least exponent, which is also that of zero. -/
def minExponent : Int := -1074

/-- The greatest exponent of a finite number. -/
def maxExponent : Int := 971

def zero (negative : Bool) : Binary64 := .finite negative 0 minExponent

/-- `num / den < 2 ^ e`. -/
def ratioBelow (num den : Nat) (e : Int) : Bool :=
  if 0 ≤ e then num < den * pow2 e.toNat else num * pow2 (-e).toNat < den

/-- The exponent of the greatest power of two that is at most `num / den`. -/
def floorLog2 (num den : Nat) : Int :=
  let guess : Int := (num.log2 : Int) - (den.log2 : Int)
  if ratioBelow num den guess then guess - 1 else guess

/-- `num / den / 2 ^ e` rounded to a natural number, a half to the even neighbour. -/
def roundScaled (num den : Nat) (e : Int) : Nat :=
  if 0 ≤ e then roundHalfEven num (den * pow2 e.toNat)
  else roundHalfEven (num * pow2 (-e).toNat) den

/-- The number nearest to `num / den`, for a positive `den`. -/
def ofRatio (negative : Bool) (num den : Nat) : Binary64 :=
  if num = 0 then zero negative
  else
    let e := max (floorLog2 num den - 52) minExponent
    let m := roundScaled num den e
    let (m, e) := if m = pow2 53 then (pow2 52, e + 1) else (m, e)
    if maxExponent < e then .infinite negative else .finite negative m e

/-- The number nearest to `mantissa * 2 ^ exponent`. -/
def ofScaled (negative : Bool) (mantissa : Nat) (exponent : Int) : Binary64 :=
  if 0 ≤ exponent then ofRatio negative (mantissa * pow2 exponent.toNat) 1
  else ofRatio negative mantissa (pow2 (-exponent).toNat)

/-- The number nearest to `digits * 10 ^ exponent`. Beyond `10 ^ 400` and below `10 ^ -400` the
answer is known without computing the power. -/
def ofDecimal (negative : Bool) (digits : Nat) (exponent : Int) : Binary64 :=
  if digits = 0 then zero negative
  else
    let magnitude := exponent + (Nat.toDigits 10 digits).length
    if 400 < magnitude then .infinite negative
    else if magnitude < -400 then zero negative
    else if 0 ≤ exponent then ofRatio negative (digits * pow10 exponent.toNat) 1
    else ofRatio negative digits (pow10 (-exponent).toNat)

/-- The number nearest to a whole number. -/
def ofInt (n : Int) : Binary64 := ofRatio (n < 0) n.natAbs 1

/-- The number nearest to `n` times the given number. -/
def mulNat (n : Nat) : Binary64 → Binary64
  | .finite negative m e => ofScaled negative (n * m) e
  | x => x

/-- The number with the other sign. -/
def neg : Binary64 → Binary64
  | .finite negative m e => .finite (!negative) m e
  | .infinite negative => .infinite (!negative)
  | .nan => .nan

/-- The number nearest to a sum. -/
def add : Binary64 → Binary64 → Binary64
  | .finite s m e, .finite t n d =>
    let least := min e d
    let part (negative : Bool) (m : Nat) (e : Int) : Int :=
      let size : Nat := m * pow2 (e - least).toNat
      if negative then -size else size
    let sum := part s m e + part t n d
    if sum = 0 then zero (s && t) else ofScaled (sum < 0) sum.natAbs least
  | .infinite s, .infinite t => if s = t then .infinite s else .nan
  | .nan, _ | _, .nan => .nan
  | .infinite s, _ | _, .infinite s => .infinite s

/-- The number without its fractional part; nothing for an infinity and for no number. -/
def truncate? : Binary64 → Option Int
  | .finite negative m e =>
    let size : Nat := if 0 ≤ e then m * pow2 e.toNat else m / pow2 (-e).toNat
    some (if negative then -size else size)
  | _ => none

/-- The whole number that this is, if it is one. -/
def toInt? (x : Binary64) : Option Int :=
  match x with
  | .finite _ m e => if 0 ≤ e || m % pow2 (-e).toNat == 0 then x.truncate? else none
  | _ => none

def isZero : Binary64 → Bool
  | .finite _ 0 _ => true
  | _ => false

end Binary64

end PagePress.Number
