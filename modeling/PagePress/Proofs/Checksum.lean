import Mathlib.Algebra.BigOperators.Fin
import Mathlib.Data.Nat.Digits.Lemmas
import Mathlib.Data.Int.ModEq
import Mathlib.Tactic.Ring
import PagePress.Number.Integer
import PagePress.Proofs.Scan
import PagePress.Script.Page

/-!
Keys of texts. The rolling hash is the size of a polynomial in the UTF-16 units of the text, read as a
signed word (`rollingHash_eq`); a number in base 36 is read back from its digits, of which no first
one is superfluous (`numeral?_base36`). Six digits hold every hash, so the key of a hosted form is
never cut (`checksum_of_text`).
-/

namespace PagePress.Text

/-- The UTF-16 code units of a text: a character above the basic plane is a pair of surrogates. -/
inductive Utf16 : List Char → List Nat → Prop where
  | nil : Utf16 [] []
  | basic {c : Char} {s : List Char} {us : List Nat} : c.toNat < 0x10000 → Utf16 s us →
      Utf16 (c :: s) (c.toNat :: us)
  | pair {c : Char} {s : List Char} {us : List Nat} {high low : Nat} : high < 0x400 → low < 0x400 →
      c.toNat = 0x10000 + 0x400 * high + low → Utf16 s us →
      Utf16 (c :: s) ((0xD800 + high) :: (0xDC00 + low) :: us)

theorem utf16_units (s : List Char) : Utf16 s (units s) := by
  induction s with
  | nil => exact .nil
  | cons c s ih =>
    have hc : c.toNat < 0x110000 := by
      have := c.valid
      simp only [UInt32.isValidChar, Nat.isValidChar] at this
      exact this.elim (fun h => h.trans (by decide)) And.right
    rw [units, List.flatMap_cons, charUnits]
    split
    · exact .basic ‹_› ih
    · exact .pair (by omega) (by omega) (by omega) ih

end PagePress.Text

namespace PagePress.Checksum

open Text

/-! ### The hash -/

/-- The value at 31 of the polynomial whose coefficients are some units, the last one constant. -/
def polynomial (us : List Nat) : Nat := ∑ i : Fin us.length, us[i] * 31 ^ (us.length - 1 - i)

theorem polynomial_cons (u : Nat) (us : List Nat) :
    polynomial (u :: us) = u * 31 ^ us.length + polynomial us := by
  refine (Fin.sum_univ_succ (n := us.length) _).trans ?_
  congr 1
  refine Finset.sum_congr rfl fun i _ => ?_
  simp only [Fin.getElem_fin, Fin.val_succ, List.getElem_cons_succ, List.length_cons]
  congr 2
  omega

/-- Hashing units after a hash shifts the hash by their number. -/
theorem foldl_step_modEq (hash : Nat) (us : List Nat) :
    us.foldl step hash ≡ hash * 31 ^ us.length + polynomial us [MOD 2 ^ 32] := by
  induction us generalizing hash with
  | nil => simpa [polynomial] using Nat.ModEq.refl hash
  | cons u us ih =>
    have hstep : step hash u ≡ 31 * hash + u [MOD 2 ^ 32] := Nat.mod_modEq ..
    rw [List.foldl_cons, polynomial_cons, List.length_cons]
    calc us.foldl step (step hash u)
        ≡ step hash u * 31 ^ us.length + polynomial us [MOD 2 ^ 32] := ih _
      _ ≡ (31 * hash + u) * 31 ^ us.length + polynomial us [MOD 2 ^ 32] :=
          (hstep.mul_right _).add_right _
      _ = hash * 31 ^ (us.length + 1) + (u * 31 ^ us.length + polynomial us) := by ring

theorem foldl_step_lt {hash : Nat} (h : hash < 2 ^ 32) (us : List Nat) : us.foldl step hash < 2 ^ 32 := by
  induction us generalizing hash with
  | nil => exact h
  | cons u us ih => exact ih (Nat.mod_lt _ (by decide))

/-- The size of a word is that of its residue around zero. -/
theorem signedSize_eq {word : Nat} (h : word < 2 ^ 32) :
    signedSize word = (Int.bmod word (2 ^ 32)).natAbs := by
  have hmod : (word : Int) % (2 ^ 32 : Nat) = word := Int.emod_eq_of_lt (by omega) (by omega)
  rw [signedSize, Int.bmod_def, hmod]
  split <;> split <;> omega

theorem signedSize_le {word : Nat} (h : word < 2 ^ 32) : signedSize word ≤ 2 ^ 31 := by
  unfold signedSize
  split <;> omega

theorem rollingHash_eq (s : List Char) :
    rollingHash s = (Int.bmod (polynomial (units s)) (2 ^ 32)).natAbs := by
  have hlt : (units s).foldl step 0 < 2 ^ 32 := foldl_step_lt (by decide) _
  have hmod : (units s).foldl step 0 ≡ polynomial (units s) [MOD 2 ^ 32] := by
    simpa using foldl_step_modEq 0 (units s)
  have hword : (units s).foldl step 0 = polynomial (units s) % 2 ^ 32 := by
    rw [← hmod, Nat.mod_eq_of_lt hlt]
  have hbmod : Int.bmod (polynomial (units s)) (2 ^ 32) =
      Int.bmod ((units s).foldl step 0 : Nat) (2 ^ 32) := by
    rw [hword, Int.natCast_emod]
    exact (Int.emod_bmod ..).symm
  rw [rollingHash, signedSize_eq hlt, hbmod]

theorem rollingHash_le (s : List Char) : rollingHash s ≤ 2 ^ 31 :=
  signedSize_le (foldl_step_lt (by decide) _)

/-! ### Base 36 -/

/-- A digit of base 36: a figure or a small letter. -/
def IsDigit (c : Char) : Prop := ('0' ≤ c ∧ c ≤ '9') ∨ ('a' ≤ c ∧ c ≤ 'z')

instance (c : Char) : Decidable (IsDigit c) := inferInstanceAs (Decidable (_ ∨ _))

/-- The value of a digit of base 36. -/
def digitValue? (c : Char) : Option Nat :=
  if '0' ≤ c ∧ c ≤ '9' then some (c.toNat - '0'.toNat)
  else if 'a' ≤ c ∧ c ≤ 'z' then some (c.toNat - 'a'.toNat + 10)
  else none

/-- The number that a numeral in base 36 spells. -/
def numeral? (s : List Char) : Option Nat :=
  if s = [] then none else (s.mapM digitValue?).map (Number.ofDigits 36)

theorem digitValue?_digit {n : Nat} (h : n < 36) : digitValue? (digit n) = some n := by
  have : ∀ n < 36, digitValue? (digit n) = some n := by decide
  exact this n h

theorem isDigit_digit {n : Nat} (h : n < 36) : IsDigit (digit n) := by
  have : ∀ n < 36, IsDigit (digit n) := by decide
  exact this n h

theorem digit_eq_zero {n : Nat} (h : n < 36) (hd : digit n = '0') : n = 0 := by
  have : ∀ n < 36, digit n = '0' → n = 0 := by decide
  exact this n h hd

theorem digitsBefore_eq (n : Nat) (tail : List Char) :
    digitsBefore n tail = (Nat.digits 36 n).reverse.map digit ++ tail := by
  fun_induction digitsBefore n tail with
  | case1 => simp
  | case2 n tail hn ih => rw [ih, Nat.digits_def' (by decide) (Nat.pos_of_ne_zero hn)]; simp

theorem base36_of_ne_zero {n : Nat} (hn : n ≠ 0) : base36 n = (Nat.digits 36 n).reverse.map digit := by
  rw [base36, if_neg hn, digitsBefore_eq, List.append_nil]

theorem mapM_digitValue? {ds : List Nat} (h : ∀ d ∈ ds, d < 36) :
    (ds.map digit).mapM digitValue? = some ds := by
  induction ds with
  | nil => rfl
  | cons d ds ih =>
    have ih := ih fun e he => h e (List.mem_cons_of_mem _ he)
    simp [digitValue?_digit (h d (by simp)), ih]

theorem ofDigits_reverse (base : Nat) (ds : List Nat) :
    Number.ofDigits base ds.reverse = Nat.ofDigits base ds := by
  rw [Number.ofDigits, List.foldl_reverse, Nat.ofDigits_eq_foldr]
  simp [add_comm]

/-- A number is read back from its text. -/
theorem numeral?_base36 (n : Nat) : numeral? (base36 n) = some n := by
  by_cases hn : n = 0
  · subst hn
    decide
  · have hlt : ∀ d ∈ (Nat.digits 36 n).reverse, d < 36 := fun d hd =>
      Nat.digits_lt_base (by decide) (List.mem_reverse.1 hd)
    have hne : (Nat.digits 36 n).reverse.map digit ≠ [] := by
      simpa using Nat.digits_ne_nil_iff_ne_zero.2 hn
    rw [base36_of_ne_zero hn, numeral?, if_neg hne, mapM_digitValue? hlt, Option.map_some,
      ofDigits_reverse, Nat.ofDigits_digits]

/-- Only the text of zero begins with a zero. -/
theorem eq_zero_of_head?_base36 {n : Nat} (h : (base36 n).head? = some '0') : n = 0 := by
  by_contra hn
  have hne : Nat.digits 36 n ≠ [] := Nat.digits_ne_nil_iff_ne_zero.2 hn
  rw [base36_of_ne_zero hn, List.head?_map, List.head?_reverse,
    List.getLast?_eq_some_getLast hne, Option.map_some, Option.some.injEq] at h
  have hlt := Nat.digits_lt_base (by decide : 1 < 36) (List.getLast_mem hne)
  exact Nat.getLast_digit_ne_zero 36 hn (digit_eq_zero hlt h)

theorem isDigit_of_mem_base36 {n : Nat} {c : Char} (h : c ∈ base36 n) : IsDigit c := by
  by_cases hn : n = 0
  · subst hn
    obtain rfl : c = '0' := by simpa [base36] using h
    decide
  · rw [base36_of_ne_zero hn] at h
    obtain ⟨d, hd, rfl⟩ := List.mem_map.1 h
    exact isDigit_digit (Nat.digits_lt_base (by decide) (List.mem_reverse.1 hd))

theorem base36_ne_nil (n : Nat) : base36 n ≠ [] := by
  intro h
  have := numeral?_base36 n
  rw [h] at this
  cases this

/-- A number below a power of the base has at most as many digits. -/
theorem length_base36_le {n k : Nat} (hk : 0 < k) (h : n < 36 ^ k) : (base36 n).length ≤ k := by
  by_cases hn : n = 0
  · subst hn
    exact hk
  · rw [base36_of_ne_zero hn, List.length_map, List.length_reverse]
    exact (Nat.digits_length_le_iff (by decide) n).2 h

/-! ### Keys -/

theorem length_checksum_le (s : List Char) : (checksum s).length ≤ 6 :=
  length_base36_le (by decide) ((rollingHash_le s).trans_lt (by decide))

/-- The hash of a text is the size of the signed residue of a polynomial in its units, a number is
read back from its text in base 36, and the key of a text is a short numeral that is never cut. -/
theorem checksum_of_text (t : String) :
    (Utf16 t.toList (units t.toList) ∧
      rollingHash t.toList = (Int.bmod (polynomial (units t.toList)) (2 ^ 32)).natAbs ∧
      rollingHash t.toList ≤ 2 ^ 31) ∧
    (∀ n : Nat, ∃ ds, base36? n = .ok ds ∧ numeral? ds = some n ∧
      (ds.head? = some '0' → ds = ['0'])) ∧
    (1 ≤ (checksum t.toList).length ∧ (checksum t.toList).length ≤ 6 ∧
      (∀ c ∈ checksum t.toList, IsDigit c)) ∧
    Script.hostedKey t = .ofList (checksum t.toList) := by
  refine ⟨⟨utf16_units _, rollingHash_eq _, rollingHash_le _⟩, fun n => ?_,
    ⟨List.length_pos_iff.2 (base36_ne_nil _), length_checksum_le _, fun c => isDigit_of_mem_base36⟩, ?_⟩
  · refine ⟨base36 n, ?_, numeral?_base36 n, fun h => ?_⟩
    · rw [base36?, if_neg (by omega), Int.toNat_natCast]
    · rw [eq_zero_of_head?_base36 h]
      rfl
  · rw [Script.hostedKey, List.take_of_length_le]
    exact (length_checksum_le _).trans (by decide)

end PagePress.Checksum
