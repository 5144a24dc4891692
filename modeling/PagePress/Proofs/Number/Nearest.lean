import Mathlib.Data.Int.Log
import Mathlib.Data.Rat.Floor
import Mathlib.Tactic.Ring
import PagePress.Number.Binary64

/-!
Rounding to the nearest number. Rounding a quotient is off by at most one half (`roundHalfEven_bounds`).
The power of two below a quotient is the one of its logarithm (`floorLog2_eq_log`), so a quotient of a known
size is rounded in steps of a known size (`ofRatio_of_scaled`).
-/

namespace PagePress.Number

theorem roundHalfEven_cases (num den : Nat) :
    (roundHalfEven num den = num / den ∧ 2 * (num % den) ≤ den) ∨
      (roundHalfEven num den = num / den + 1 ∧ den ≤ 2 * (num % den)) := by
  unfold roundHalfEven
  dsimp only
  split
  · exact .inl ⟨rfl, by omega⟩
  · split
    · exact .inr ⟨rfl, by omega⟩
    · split
      · exact .inl ⟨rfl, by omega⟩
      · exact .inr ⟨rfl, by omega⟩

/-- Rounding is off by at most one half. -/
theorem roundHalfEven_bounds (num : Nat) {den : Nat} (hd : 0 < den) :
    2 * num ≤ 2 * (den * roundHalfEven num den) + den ∧
      2 * (den * roundHalfEven num den) ≤ 2 * num + den := by
  have hdiv : den * (num / den) + num % den = num := Nat.div_add_mod num den
  have hmod : num % den < den := Nat.mod_lt num hd
  rcases roundHalfEven_cases num den with ⟨h, hhalf⟩ | ⟨h, hhalf⟩
  · rw [h]
    omega
  · rw [h, Nat.mul_add]
    omega

namespace Binary64

theorem ratioBelow_iff (num : Nat) {den : Nat} (hd : 0 < den) (e : Int) :
    ratioBelow num den e = true ↔ (num : Rat) / den < 2 ^ e := by
  have hden : (0 : Rat) < den := by exact_mod_cast hd
  unfold ratioBelow
  rw [div_lt_iff₀ hden]
  split
  · rename_i he
    obtain ⟨k, rfl⟩ := Int.eq_ofNat_of_zero_le he
    rw [decide_eq_true_iff, Int.toNat_natCast, zpow_natCast, mul_comm den]
    exact_mod_cast Iff.rfl
  · rename_i he
    obtain ⟨k, rfl⟩ := Int.exists_eq_neg_ofNat (Int.le_of_not_le he)
    have hpow : (0 : Rat) < 2 ^ k := by positivity
    rw [decide_eq_true_iff, Int.neg_neg, Int.toNat_natCast, zpow_neg, zpow_natCast, ← div_eq_inv_mul,
      lt_div_iff₀ hpow]
    exact_mod_cast Iff.rfl

/-- A quotient lies between the powers of two that the sizes of its two numbers tell. -/
theorem ratio_between {num den : Nat} (hn : 0 < num) (hd : 0 < den) :
    (2 : Rat) ^ ((num.log2 : Int) - den.log2 - 1) ≤ num / den ∧
      (num : Rat) / den < 2 ^ ((num.log2 : Int) - den.log2 + 1) := by
  have htwo : (2 : Rat) ≠ 0 := by decide
  have hden : (0 : Rat) < den := by exact_mod_cast hd
  have hnum : (2 : Rat) ^ num.log2 ≤ num ∧ (num : Rat) < 2 ^ (num.log2 + 1) := by
    exact_mod_cast And.intro (Nat.log2_self_le hn.ne') Nat.lt_log2_self
  have hden' : (2 : Rat) ^ den.log2 ≤ den ∧ (den : Rat) < 2 ^ (den.log2 + 1) := by
    exact_mod_cast And.intro (Nat.log2_self_le hd.ne') Nat.lt_log2_self
  constructor
  · rw [le_div_iff₀ hden]
    calc (2 : Rat) ^ ((num.log2 : Int) - den.log2 - 1) * den
        ≤ 2 ^ ((num.log2 : Int) - den.log2 - 1) * 2 ^ (den.log2 + 1) := by
          exact mul_le_mul_of_nonneg_left hden'.2.le (zpow_nonneg (by decide) _)
      _ = 2 ^ num.log2 := by
          rw [← zpow_natCast, ← zpow_natCast, ← zpow_add₀ htwo]
          congr 1
          push_cast
          ring
      _ ≤ num := hnum.1
  · rw [div_lt_iff₀ hden]
    calc (num : Rat) < 2 ^ (num.log2 + 1) := hnum.2
      _ = 2 ^ ((num.log2 : Int) - den.log2 + 1) * 2 ^ den.log2 := by
          rw [← zpow_natCast, ← zpow_natCast, ← zpow_add₀ htwo]
          congr 1
          push_cast
          ring
      _ ≤ 2 ^ ((num.log2 : Int) - den.log2 + 1) * den := by
          exact mul_le_mul_of_nonneg_left hden'.1 (zpow_nonneg (by decide) _)

/-- The power of two below a quotient is that of its logarithm. -/
theorem floorLog2_eq_log {num den : Nat} (hn : 0 < num) (hd : 0 < den) :
    floorLog2 num den = Int.log 2 ((num : Rat) / den) := by
  have hpos : (0 : Rat) < num / den := by
    have : (0 : Rat) < num := by exact_mod_cast hn
    have : (0 : Rat) < den := by exact_mod_cast hd
    positivity
  obtain ⟨hlower, hupper⟩ := ratio_between hn hd
  have hbelow : ∀ e : Int, (num : Rat) / den < 2 ^ e ↔ Int.log 2 ((num : Rat) / den) < e := by
    intro e
    simpa using Int.lt_zpow_iff_log_lt (b := 2) (by decide) hpos
  have hlt := (hbelow _).1 hupper
  have hge := mt (hbelow _).2 (not_lt.2 hlower)
  have hguess := (ratioBelow_iff num hd _).trans (hbelow ((num.log2 : Int) - den.log2))
  unfold floorLog2
  dsimp only
  split
  · rename_i h
    have := hguess.1 h
    omega
  · rename_i h
    have := mt hguess.2 h
    omega

theorem log_of_between {x : Rat} {e : Int} (hlower : 2 ^ e ≤ x) (hupper : x < 2 ^ (e + 1)) :
    Int.log 2 x = e := by
  have hpos : 0 < x := lt_of_lt_of_le (zpow_pos (by decide) e) hlower
  have hge := (Int.zpow_le_iff_le_log (b := 2) (by decide) hpos).1 (by simpa using hlower)
  have hlt := (Int.lt_zpow_iff_log_lt (b := 2) (by decide) hpos).1 (by simpa using hupper)
  omega

theorem log_of_scaled {num den k : Nat} (hd : 0 < den) (hlower : den * 2 ^ 52 ≤ num * 2 ^ k)
    (hupper : num * 2 ^ k < den * 2 ^ 53) : Int.log 2 ((num : Rat) / den) = -(k : Int) + 52 := by
  have hden : (0 : Rat) < den := by exact_mod_cast hd
  have hpow : (0 : Rat) < 2 ^ k := by positivity
  have hexp : ∀ i : Nat, (2 : Rat) ^ (-(k : Int) + i) = 2 ^ i / 2 ^ k := by
    intro i
    rw [zpow_add₀ (by decide), zpow_neg, zpow_natCast, zpow_natCast, div_eq_inv_mul]
  apply log_of_between
  · rw [show (52 : Int) = (52 : Nat) from rfl, hexp, div_le_div_iff₀ hpow hden, mul_comm]
    exact_mod_cast hlower
  · rw [add_assoc, show (52 + 1 : Int) = (53 : Nat) from rfl, hexp, div_lt_div_iff₀ hden hpow,
      mul_comm _ (den : Rat)]
    exact_mod_cast hupper

/-- A quotient between `2 ^ (52 - k)` and `2 ^ (53 - k)` is rounded to the nearest multiple of `2 ^ -k`,
unless that is already the upper bound. -/
theorem ofRatio_of_scaled {num den k : Nat} (negative : Bool) (hd : 0 < den) (hk : k ≤ 1074)
    (hlower : den * 2 ^ 52 ≤ num * 2 ^ k) (hupper : 2 * (num * 2 ^ k) + den < 2 * (den * 2 ^ 53)) :
    ofRatio negative num den = .finite negative (roundHalfEven (num * 2 ^ k) den) (-k) := by
  have hn : num ≠ 0 := by
    rintro rfl
    have := Nat.mul_pos hd (Nat.two_pow_pos 52)
    omega
  have hmax : max (floorLog2 num den - 52) minExponent = -(k : Int) := by
    rw [floorLog2_eq_log (Nat.pos_of_ne_zero hn) hd, log_of_scaled hd hlower (by omega), minExponent]
    omega
  have hscaled : roundScaled num den (-k) = roundHalfEven (num * 2 ^ k) den := by
    unfold roundScaled
    split
    · obtain rfl : k = 0 := by omega
      simp [pow2]
    · rw [Int.neg_neg, Int.toNat_natCast]
      rfl
  have hsmall : roundHalfEven (num * 2 ^ k) den ≠ pow2 53 := by
    intro h
    have hbounds := (roundHalfEven_bounds (num * 2 ^ k) hd).2
    rw [h] at hbounds
    exact absurd hbounds (Nat.not_le.2 hupper)
  unfold ofRatio
  simp only [if_neg hn, hmax, hscaled, if_neg hsmall]
  rw [if_neg (by unfold maxExponent; omega)]

end Binary64

end PagePress.Number
