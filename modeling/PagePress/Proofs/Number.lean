import Mathlib.Algebra.Order.Field.Rat
import Mathlib.Tactic.Positivity
import PagePress.Number.Binary64
import PagePress.Number.Integer
import PagePress.Number.Numeral
import PagePress.Proofs.Text.Blank

/-!
Whole numbers. The reader of numerals accepts the texts of one form, given without reference to how
it reads (`isSome_readInteger?`), and a floating-point number is taken for a whole one just when it
is one (`isSome_toInt?`).
-/

namespace PagePress

open Text

namespace Text

/-! ### Digits -/

theorem isDigit_iff {c : Char} : c.isDigit = true ↔ 48 ≤ c.toNat ∧ c.toNat ≤ 57 :=
  Char.isDigit_iff_toNat

theorem digitValue?_lt {c : Char} {n : Nat} (h : digitValue? c = some n) : n < 10 := by
  unfold digitValue? at h
  dsimp only at h
  split at h
  · split at h
    · rename_i hd
      rw [isDigit_iff] at hd
      injection h with h
      omega
    · cases h
  · obtain ⟨z, hz, rfl⟩ := Option.map_eq_some_iff.1 h
    have := List.find?_some hz
    simp only [Bool.and_eq_true, decide_eq_true_eq] at this
    omega

/-- The value of an ASCII digit. -/
theorem digitValue?_of_isDigit {c : Char} (h : c.isDigit = true) :
    digitValue? c = some (c.toNat - '0'.toNat) := by
  have hlt : c.toNat < 0x80 := by
    have := isDigit_iff.1 h
    omega
  unfold digitValue?
  simp only [h, hlt, if_true]
  rfl

theorem isDigit_of_isDigit {c : Char} (h : c.isDigit = true) : isDigit c = true := by
  rw [isDigit, digitValue?_of_isDigit h, Option.isSome_some]

/-- No digit is white space: the scripts with digits of their own keep clear of the blanks. -/
theorem isBlank_of_isDigit {c : Char} (h : isDigit c = true) : isBlank c = false := by
  obtain ⟨n, hn⟩ := Option.isSome_iff_exists.1 h
  have hzeros : ∀ z ∈ zeros, 0xA1 ≤ z ∧ (z + 10 ≤ 0x1680 ∨ 0x1680 < z) ∧
      (z + 10 ≤ 0x2000 ∨ 0x3000 < z) := by decide
  have hclear : (48 ≤ c.toNat ∧ c.toNat ≤ 57) ∨ (0xA1 ≤ c.toNat ∧ c.toNat ≠ 0x1680 ∧
      (c.toNat < 0x2000 ∨ 0x3000 < c.toNat)) := by
    unfold digitValue? at hn
    dsimp only at hn
    split at hn
    · split at hn
      · rename_i hd
        exact .inl (isDigit_iff.1 hd)
      · cases hn
    · right
      obtain ⟨z, hz, -⟩ := Option.map_eq_some_iff.1 hn
      have hrange := List.find?_some hz
      have := hzeros z (List.mem_of_find?_eq_some hz)
      simp only [Bool.and_eq_true, decide_eq_true_eq] at hrange
      omega
  simp only [isBlank, Bool.or_eq_false_iff, Bool.and_eq_false_iff, decide_eq_false_iff_not,
    beq_eq_false_iff_ne]
  omega

end Text

namespace Number

/-- The value of ASCII digits. -/
theorem decimalValue_of_digits {ds : List Char} (h : ∀ c ∈ ds, c.isDigit = true) :
    decimalValue ds = Nat.ofDigitChars 10 ds 0 := by
  have hmap : ds.filterMap digitValue? = ds.map fun c => c.toNat - '0'.toNat := by
    induction ds with
    | nil => rfl
    | cons c ds ih =>
      rw [List.filterMap_cons_some (digitValue?_of_isDigit (h c List.mem_cons_self)), List.map_cons,
        ih fun d hd => h d (List.mem_cons_of_mem c hd)]
  rw [decimalValue, hmap, ofDigits, List.foldl_map]
  rfl

/-- In base ten the digits are those of the scripts. -/
theorem isSome_digitIn? (c : Char) : (digitIn? 10 c).isSome = Text.isDigit c := by
  unfold digitIn? isDigit
  cases h : digitValue? c with
  | some n => simp [Option.filter, digitValue?_lt h]
  | none =>
    have hnot : ¬ (0x30 ≤ c.toNat ∧ c.toNat ≤ 0x39) := by
      intro hd
      have := isDigit_of_isDigit (isDigit_iff.2 hd)
      rw [isDigit, h] at this
      cases this
    have hhex : ∀ n, hexValue? c = some n → ¬ n < 10 := by
      intro n hn
      unfold hexValue? at hn
      dsimp only at hn
      simp only [Bool.and_eq_true, decide_eq_true_eq, if_neg hnot] at hn
      split at hn
      · injection hn with hn
        omega
      · split at hn
        · injection hn with hn
          omega
        · cases hn
    cases hx : hexValue? c with
    | none => simp
    | some n => simp [Option.filter, hhex n hx]

theorem dropMark_ten (s : List Char) : dropMark 10 s = s := by
  unfold dropMark
  split
  · rename_i mark rest
    have hmark : ([('b', 2), ('o', 8), ('x', 16)].lookup mark.toLower == some 10) = false := by
      simp only [List.lookup_cons, List.lookup_nil]
      repeat' split
      all_goals rfl
    simp only [hmark, Bool.false_eq_true, if_false]
  · rfl

/-! ### Numerals -/

/-- Digits with single underscores between them. -/
structure IsNumeral (s : List Char) : Prop where
  marks : ∀ c ∈ s, Text.isDigit c = true ∨ c = '_'
  first : ∃ c ∈ s.head?, Text.isDigit c = true
  last : ∃ c ∈ s.getLast?, Text.isDigit c = true
  apart : s.IsChain fun a b => Text.isDigit a = true ∨ Text.isDigit b = true

theorem not_isDigit_underscore : ¬ Text.isDigit '_' = true := by decide

theorem isNumeral_singleton {c : Char} : IsNumeral [c] ↔ Text.isDigit c = true := by
  constructor
  · intro h
    simpa using h.first
  · intro h
    exact ⟨by simp [h], by simp [h], by simp [h], by simp⟩

/-- A digit may stand before the first underscore of a numeral or of its own. -/
theorem isNumeral_cons_cons {c d : Char} {s : List Char} (hd : d ≠ '_') :
    IsNumeral (c :: d :: s) ↔ Text.isDigit c = true ∧ IsNumeral (d :: s) := by
  constructor
  · intro h
    have hc : Text.isDigit c = true := by simpa using h.first
    have hmarks : ∀ x ∈ d :: s, Text.isDigit x = true ∨ x = '_' :=
      fun x hx => h.marks x (List.mem_cons_of_mem _ hx)
    exact ⟨hc, hmarks, by simpa [hd] using hmarks d (by simp), by simpa using h.last, h.apart.tail⟩
  · rintro ⟨hc, h⟩
    exact ⟨List.forall_mem_cons.2 ⟨.inl hc, h.marks⟩, by simpa using hc, by simpa using h.last,
      List.isChain_cons_cons.2 ⟨.inl hc, h.apart⟩⟩

theorem isNumeral_cons_underscore {c : Char} {s : List Char} :
    IsNumeral (c :: '_' :: s) ↔ Text.isDigit c = true ∧ IsNumeral s := by
  constructor
  · intro h
    have hlast : ∃ x ∈ s.getLast?, Text.isDigit x = true := by
      cases s with
      | nil => simpa [not_isDigit_underscore] using h.last
      | cons d s => simpa using h.last
    have hfirst : ∃ x ∈ s.head?, Text.isDigit x = true := by
      cases s with
      | nil => simp at hlast
      | cons d s =>
        have := (List.isChain_cons_cons.1 (List.isChain_cons_cons.1 h.apart).2).1
        simpa [not_isDigit_underscore] using this
    exact ⟨by simpa using h.first, fun x hx => h.marks x (by simp [hx]), hfirst, hlast,
      h.apart.tail.tail⟩
  · rintro ⟨hc, h⟩
    obtain ⟨d, s, rfl⟩ : ∃ d t, s = d :: t := by
      cases s with
      | nil => simpa using h.first
      | cons d t => exact ⟨d, t, rfl⟩
    have hd : Text.isDigit d = true := by simpa using h.first
    exact ⟨by simpa [hc] using h.marks, by simpa using hc, by simpa using h.last,
      List.isChain_cons_cons.2 ⟨.inl hc, List.isChain_cons_cons.2 ⟨.inr hd, h.apart⟩⟩⟩

theorem isSome_digits? (s : List Char) : (digits? 10 s).isSome = true ↔ IsNumeral s := by
  fun_induction digits? 10 s with
  | case1 =>
    simp only [Option.isSome_none, Bool.false_eq_true, false_iff]
    intro h
    simpa using h.first
  | case2 c => rw [Option.isSome_map, isSome_digitIn?, isNumeral_singleton]
  | case3 c rest ih =>
    rw [isNumeral_cons_underscore, ← ih, ← isSome_digitIn?]
    cases digitIn? 10 c <;> cases digits? 10 rest <;> simp
  | case4 c rest hne hmark ih =>
    obtain ⟨d, rest, rfl⟩ := List.exists_cons_of_ne_nil hne
    have hd : d ≠ '_' := fun h => hmark rest (by rw [h])
    rw [isNumeral_cons_cons hd, ← ih, ← isSome_digitIn?]
    cases digitIn? 10 c <;> cases digits? 10 (d :: rest) <;> simp

/-- A numeral has as many digits as are read. -/
theorem length_digits? {s : List Char} {ds : List Nat} (h : digits? 10 s = some ds) :
    ds.length = (s.filter Text.isDigit).length := by
  have hdigit : ∀ {c : Char} {n : Nat}, digitIn? 10 c = some n → Text.isDigit c = true := by
    intro c n hn
    rw [← isSome_digitIn?, hn]
    rfl
  fun_induction digits? 10 s generalizing ds with
  | case1 => cases h
  | case2 c =>
    obtain ⟨n, hn, rfl⟩ := Option.map_eq_some_iff.1 h
    simp [hdigit hn]
  | case3 c rest ih =>
    obtain ⟨n, hn, h⟩ := Option.bind_eq_some_iff.1 h
    obtain ⟨ds, hds, h⟩ := Option.bind_eq_some_iff.1 h
    injection h with h
    simp [← h, hdigit hn, not_isDigit_underscore, ih hds]
  | case4 c rest hne hmark ih =>
    obtain ⟨n, hn, h⟩ := Option.bind_eq_some_iff.1 h
    obtain ⟨ds, hds, h⟩ := Option.bind_eq_some_iff.1 h
    injection h with h
    simp [← h, hdigit hn, ih hds]

/-- The text is a whole number: a numeral of at most so many digits as are allowed, possibly a sign
before it, and white space around them. -/
def SpellsInteger (s : List Char) : Prop :=
  ∃ before sign numeral after, s = before ++ (sign ++ numeral) ++ after ∧
    (∀ c ∈ before, isBlank c = true) ∧ (∀ c ∈ after, isBlank c = true) ∧
    sign ∈ [[], ['+'], ['-']] ∧ IsNumeral numeral ∧ (numeral.filter Text.isDigit).length ≤ maxDigits

theorem exists_sign (s : List Char) : ∃ sign ∈ [[], ['+'], ['-']], s = sign ++ (takeSign s).2 := by
  unfold takeSign
  split
  · exact ⟨['-'], by simp, rfl⟩
  · exact ⟨['+'], by simp, rfl⟩
  · exact ⟨[], by simp, rfl⟩

theorem IsNumeral.takeSign {sign numeral : List Char} (h : IsNumeral numeral)
    (hs : sign ∈ [[], ['+'], ['-']]) : (takeSign (sign ++ numeral)).2 = numeral := by
  obtain ⟨c, hc, hdigit⟩ := h.first
  obtain ⟨rest, rfl⟩ := List.head?_eq_some_iff.1 hc
  rcases List.mem_cons.1 hs with rfl | hs
  · unfold Number.takeSign
    split
    · exact absurd hdigit (by rename_i h; injection h with h; rw [h]; decide)
    · exact absurd hdigit (by rename_i h; injection h with h; rw [h]; decide)
    · rfl
  · simp only [List.mem_cons, List.not_mem_nil, or_false] at hs
    rcases hs with rfl | rfl <;> rfl

/-- A numeral with a sign begins and ends with no white space. -/
theorem IsNumeral.trim {sign numeral : List Char} (h : IsNumeral numeral)
    (hs : sign ∈ [[], ['+'], ['-']]) {before after : List Char} (hb : ∀ c ∈ before, isBlank c = true)
    (ha : ∀ c ∈ after, isBlank c = true) : trim (before ++ (sign ++ numeral) ++ after) = sign ++ numeral := by
  obtain ⟨c, hc, hfirst⟩ := h.first
  obtain ⟨d, hd, hlast⟩ := h.last
  obtain ⟨u, hu⟩ := List.head?_eq_some_iff.1 hc
  obtain ⟨w, hw⟩ := List.getLast?_eq_some_iff.1 hd
  have hend : EndsSolid (sign ++ numeral) := EndsSolid.append ⟨w, d, hw, isBlank_of_isDigit hlast⟩ sign
  simp only [List.mem_cons, List.not_mem_nil, or_false] at hs
  rcases hs with rfl | rfl | rfl
  · rw [List.nil_append, hu] at hend ⊢
    exact trim_of_solid (isBlank_of_isDigit hfirst) hend hb ha
  · exact trim_of_solid (by decide) hend hb ha
  · exact trim_of_solid (by decide) hend hb ha

/-- The reader of whole numbers accepts just the texts that spell one. -/
theorem isSome_readInteger? (s : List Char) : (readInteger? s).isSome = true ↔ SpellsInteger s := by
  have hread : (readInteger? s).isSome = true ↔ IsNumeral (takeSign (trim s)).2 ∧
      ((takeSign (trim s)).2.filter Text.isDigit).length ≤ maxDigits := by
    rw [← isSome_digits?, readInteger?, numeral?]
    dsimp only
    rw [dropMark_ten]
    cases hds : digits? 10 (takeSign (trim s)).2 with
    | none => simp
    | some ds =>
      rw [← length_digits? hds]
      dsimp only [Option.map_some]
      split <;> simp <;> omega
  rw [hread]
  constructor
  · rintro ⟨hnumeral, hcount⟩
    obtain ⟨sign, hsign, htrim⟩ := exists_sign (trim s)
    obtain ⟨before, after, hs, hb, ha⟩ := exists_trim_eq s
    exact ⟨before, sign, _, after, by rw [← htrim, ← hs], hb, ha, hsign, hnumeral, hcount⟩
  · rintro ⟨before, sign, numeral, after, rfl, hb, ha, hsign, hnumeral, hcount⟩
    rw [hnumeral.trim hsign hb ha, hnumeral.takeSign hsign]
    exact ⟨hnumeral, hcount⟩

/-! ### Floating-point numbers -/

namespace Binary64

/-- The number is whole. -/
def IsWhole : Binary64 → Prop
  | .finite _ m e => ∃ k : Nat, (m : Rat) * 2 ^ e = k
  | _ => False

theorem isSome_toInt? (x : Binary64) : x.toInt?.isSome = true ↔ x.IsWhole := by
  cases x with
  | infinite negative => simp [toInt?, IsWhole]
  | nan => simp [toInt?, IsWhole]
  | finite negative m e =>
    have hsome : (toInt? (.finite negative m e)).isSome = true ↔ 0 ≤ e ∨ m % 2 ^ (-e).toNat = 0 := by
      unfold toInt?
      dsimp only
      split <;> simp_all [truncate?, pow2]
    rw [hsome, IsWhole]
    by_cases he : 0 ≤ e
    · obtain ⟨n, rfl⟩ := Int.eq_ofNat_of_zero_le he
      simp only [he, true_or, true_iff]
      exact ⟨m * 2 ^ n, by push_cast; simp⟩
    · obtain ⟨n, rfl⟩ := Int.exists_eq_neg_ofNat (Int.le_of_not_le he)
      have hpow : (2 : Rat) ^ n ≠ 0 := by positivity
      -- a fraction of a power of two is whole just when the power divides the mantissa
      have hvalue : ∀ k : Nat, (m : Rat) * 2 ^ (-(n : Int)) = k ↔ m = k * 2 ^ n := by
        intro k
        rw [zpow_neg, zpow_natCast, ← div_eq_mul_inv, div_eq_iff hpow]
        exact_mod_cast Iff.rfl
      simp only [hvalue, he, false_or, Int.neg_neg, Int.toNat_natCast]
      constructor
      · intro h
        exact ⟨m / 2 ^ n, (Nat.div_mul_cancel (Nat.dvd_of_mod_eq_zero h)).symm⟩
      · rintro ⟨k, rfl⟩
        exact Nat.mul_mod_left k _

end Binary64

end Number

end PagePress
