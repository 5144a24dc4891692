import PagePress.Percent
import PagePress.Proofs.Json
import PagePress.Text.Hex

/-!
Percent encoding read back. An address is decoded octet by octet, and the octets are read as
UTF-8; a text in an address is given back whatever its characters are (`decode?_encode`), and it is
written in characters that mean nothing to the markup around it (`mem_encode`).
-/

namespace PagePress.Percent

open Text

/-- The octets that an address stands for. A percent sign that no two digits follow is itself. -/
def octets : List Char → List UInt8
  | [] => []
  | '%' :: a :: b :: rest =>
    match hexValue? a, hexValue? b with
    | some x, some y => UInt8.ofNat (16 * x + y) :: octets rest
    | _, _ => String.utf8EncodeChar '%' ++ octets (a :: b :: rest)
  | c :: rest => String.utf8EncodeChar c ++ octets rest

/-- The text that an address stands for, if its octets spell one. -/
def decode? (s : List Char) : Option (List Char) :=
  (octets s).toByteArray.utf8Decode?.map Array.toList

/-- The octets of a character have two hexadecimal digits. -/
theorem lt_of_mem_charBytes {c : Char} {b : Nat} (h : b ∈ charBytes c) : b < 0x100 := by
  have hc := Json.toNat_valid c
  simp only [charBytes] at h
  split at h
  · rw [List.mem_singleton.1 h]
    omega
  · split at h
    · simp only [List.mem_cons, List.not_mem_nil, or_false] at h
      omega
    · split at h <;> simp only [List.mem_cons, List.not_mem_nil, or_false] at h <;> omega

/-! ### Octets read back -/

theorem octets_cons {c : Char} (hc : c ≠ '%') (rest : List Char) :
    octets (c :: rest) = String.utf8EncodeChar c ++ octets rest := by
  rw [octets]
  rintro a b rest' rfl
  exact absurd rfl hc

theorem octets_escape {a b : Char} {x y : Nat} (ha : hexValue? a = some x) (hb : hexValue? b = some y)
    (rest : List Char) : octets ('%' :: a :: b :: rest) = UInt8.ofNat (16 * x + y) :: octets rest := by
  rw [octets, ha, hb]

theorem hexValue?_digit {n : Nat} (h : n < 16) : hexValue? (digit n) = some n := by
  have hall : ∀ n < 16, hexValue? (digit n) = some n := by decide
  exact hall n h

theorem octets_encodeByte {b : Nat} (hb : b < 0x100) (rest : List Char) :
    octets (encodeByte b ++ rest) = UInt8.ofNat b :: octets rest := by
  have hhigh : hexValue? (digit (b / 16)) = some (b / 16) := hexValue?_digit (by omega)
  have hlow : hexValue? (digit (b % 16)) = some (b % 16) := hexValue?_digit (by omega)
  have hvalue : 16 * (b / 16) + b % 16 = b := Nat.div_add_mod b 16
  have hread := octets_escape hhigh hlow rest
  rw [hvalue] at hread
  exact hread

theorem octets_flatMap_encodeByte {bs : List Nat} (hb : ∀ b ∈ bs, b < 0x100) (rest : List Char) :
    octets (bs.flatMap encodeByte ++ rest) = bs.map UInt8.ofNat ++ octets rest := by
  induction bs with
  | nil => rfl
  | cons b bs ih =>
    rw [List.flatMap_cons, List.append_assoc, octets_encodeByte (hb b (by simp)),
      ih fun d hd => hb d (by simp [hd]), List.map_cons, List.cons_append]

/-- The octets of a character are those of its UTF-8 encoding. -/
theorem map_charBytes (c : Char) : (charBytes c).map UInt8.ofNat = String.utf8EncodeChar c := by
  have hc := Json.toNat_valid c
  have hval : c.val.toNat = c.toNat := rfl
  unfold charBytes String.utf8EncodeChar
  dsimp only
  rw [hval]
  by_cases h1 : c.toNat < 0x80
  · have h1' : c.toNat ≤ 127 := by omega
    rw [if_pos h1, if_pos h1']
    rfl
  · have h1' : ¬ c.toNat ≤ 127 := by omega
    rw [if_neg h1, if_neg h1']
    by_cases h2 : c.toNat < 0x800
    · have h2' : c.toNat ≤ 2047 := by omega
      have hlead : 0xC0 + c.toNat / 0x40 = c.toNat / 64 % 32 + 192 := by omega
      rw [if_pos h2, if_pos h2', hlead, Nat.add_comm 0x80]
      rfl
    · have h2' : ¬ c.toNat ≤ 2047 := by omega
      rw [if_neg h2, if_neg h2']
      by_cases h3 : c.toNat < 0x10000
      · have h3' : c.toNat ≤ 65535 := by omega
        have hlead : 0xE0 + c.toNat / 0x1000 = c.toNat / 4096 % 16 + 224 := by omega
        rw [if_pos h3, if_pos h3', hlead, Nat.add_comm 0x80, Nat.add_comm 0x80]
        rfl
      · have h3' : ¬ c.toNat ≤ 65535 := by omega
        have hlead : 0xF0 + c.toNat / 0x40000 = c.toNat / 262144 % 8 + 240 := by omega
        rw [if_neg h3, if_neg h3', hlead, Nat.add_comm 0x80, Nat.add_comm 0x80, Nat.add_comm 0x80]
        rfl

theorem octets_encodeChar (c : Char) (rest : List Char) :
    octets (encodeChar c ++ rest) = String.utf8EncodeChar c ++ octets rest := by
  unfold encodeChar
  split
  · rename_i hc
    refine octets_cons ?_ rest
    rintro rfl
    exact absurd hc (by decide)
  · rw [octets_flatMap_encodeByte (fun b hb => lt_of_mem_charBytes hb), map_charBytes]

theorem octets_encode (s : List Char) : octets (encode s) = s.flatMap String.utf8EncodeChar := by
  induction s with
  | nil => rfl
  | cons c s ih =>
    rw [encode, List.flatMap_cons, octets_encodeChar, List.flatMap_cons]
    exact congrArg (_ ++ ·) ih

/-- A text in an address is given back. -/
theorem decode?_encode (s : List Char) : decode? (encode s) = some s := by
  have hutf8 : (octets (encode s)).toByteArray = s.utf8Encode := by
    rw [octets_encode]
    rfl
  rw [decode?, hutf8, List.utf8Decode?_utf8Encode]
  rfl

/-- What a text in an address is written with. -/
theorem mem_encode {s : List Char} {c : Char} (h : c ∈ encode s) : isUnreserved c = true ∨ c = '%' := by
  obtain ⟨d, -, h⟩ := List.mem_flatMap.1 h
  unfold encodeChar at h
  split at h
  · rename_i hd
    rw [List.mem_singleton.1 h]
    exact .inl hd
  · obtain ⟨b, hb, h⟩ := List.mem_flatMap.1 h
    have hb := lt_of_mem_charBytes hb
    have hdigit : ∀ n < 0x10, isUnreserved (digit n) = true := by decide
    simp only [encodeByte, List.mem_cons, List.not_mem_nil, or_false] at h
    rcases h with rfl | rfl | rfl
    · exact .inr rfl
    · exact .inl (hdigit _ (by omega))
    · exact .inl (hdigit _ (by omega))

end PagePress.Percent
