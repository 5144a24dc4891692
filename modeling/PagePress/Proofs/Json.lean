import PagePress.Json.Literal
import PagePress.Proofs.Scan

/-!
String literals that stand in a script. They are written in printable ASCII without the marks that
mean something in a document, and reading one gives back the text it was made of
(`ofLiteral?_literal`).
-/

namespace PagePress.Json

/-! ### Characters -/

/-- A character that a literal inside a document may be written with. -/
def isWritten (c : Char) : Bool := 0x20 ≤ c.toNat && c.toNat < 0x7F && !(['<', '>', '&', '\''].contains c)

theorem isWritten_hexDigit (n : Nat) (h : n < 16) : isWritten (Text.hexDigit n) = true := by
  have : ∀ n < 16, isWritten (Text.hexDigit n) = true := by decide
  exact this n h

theorem isWritten_hexDigits (width n : Nat) : ∀ c ∈ Text.hexDigits width n, isWritten c = true := by
  induction width generalizing n with
  | zero => simp [Text.hexDigits]
  | succ width ih =>
    intro c hc
    rcases List.mem_append.1 hc with hc | hc
    · exact ih _ c hc
    · rw [List.mem_singleton.1 hc]
      exact isWritten_hexDigit _ (Nat.mod_lt _ (by decide))

theorem isWritten_literalChar (a : Char) : ∀ c ∈ literalChar a, isWritten c = true := by
  intro c hc
  unfold literalChar at hc
  cases h : shortEscape? a with
  | some u =>
    rw [h] at hc
    have key : ∀ u ∈ [['\\', '"'], ['\\', '\\'], ['\\', 'n'], ['\\', 'r'], ['\\', 't'], ['\\', 'b'],
        ['\\', 'f']], ∀ c ∈ u, isWritten c = true := by decide
    refine key u ?_ c hc
    unfold shortEscape? at h
    split at h <;> simp_all
  | none =>
    rw [h] at hc
    simp only at hc
    split at hc
    · rename_i hp
      rw [List.mem_singleton.1 hc]
      exact hp
    · obtain ⟨unit, -, hc⟩ := List.mem_flatMap.1 hc
      simp only [unitEscape, List.mem_cons] at hc
      rcases hc with rfl | rfl | hc
      · decide
      · decide
      · exact isWritten_hexDigits 4 unit c hc

/-- A literal inside a document holds no marks of the document. -/
theorem isWritten_literal (s : List Char) : ∀ c ∈ literal s, isWritten c = true := by
  intro c hc
  simp only [literal, List.cons_append, List.mem_cons, List.mem_append, List.not_mem_nil, or_false] at hc
  rcases hc with rfl | hc | rfl
  · decide
  · obtain ⟨a, -, hc⟩ := List.mem_flatMap.1 hc
    exact isWritten_literalChar a c hc
  · decide

/-! ### Reading -/

theorem readHex?_append (ds : List Char) (d : Char) : Text.readHex? (ds ++ [d]) =
    (Text.readHex? ds).bind fun n => (Text.hexValue? d).map (16 * n + ·) := by
  simp only [Text.readHex?, List.foldlM_append]
  cases ds.foldlM (fun n d => (Text.hexValue? d).map (16 * n + ·)) 0 with
  | none => rfl
  | some n => simp

theorem readHex?_hexDigits (width n : Nat) (h : n < Nat.pow 16 width) :
    Text.readHex? (Text.hexDigits width n) = some n := by
  have hdigit : ∀ n < 16, Text.hexValue? (Text.hexDigit n) = some n := by decide
  induction width generalizing n with
  | zero =>
    obtain rfl : n = 0 := Nat.lt_one_iff.1 h
    rfl
  | succ width ih =>
    have hn : n / 16 < Nat.pow 16 width := by
      have h : n < Nat.pow 16 width * 16 := h
      omega
    rw [Text.hexDigits, readHex?_append, ih _ hn, hdigit _ (Nat.mod_lt _ (by decide))]
    simp only [Option.bind_some, Option.map_some, Option.some.injEq]
    omega

theorem exists_hexDigits (n : Nat) : ∃ a b c d, Text.hexDigits 4 n = [a, b, c, d] := ⟨_, _, _, _, rfl⟩

theorem toNat_valid (c : Char) : c.toNat < 0xD800 ∨ 0xDFFF < c.toNat ∧ c.toNat < 0x110000 := c.valid

theorem unitChar?_toNat (c : Char) : unitChar? c.toNat = some c := by
  have hc := toNat_valid c
  have hn : (0xD800 ≤ c.toNat && c.toNat < 0xE000) = false := by
    simp only [Bool.and_eq_false_iff, decide_eq_false_iff_not]
    omega
  simp [unitChar?, hn]

/-- What reading a character adds to the text that was read behind it. -/
def prepend (c : Char) : Option (List Char × List Char) → Option (List Char × List Char) :=
  Option.map fun x => (c :: x.1, x.2)

theorem readString?_plain {c : Char} (h1 : c ≠ '"') (h2 : c ≠ '\\') (w : List Char) :
    readString? (c :: w) = prepend c (readString? w) := by
  rw [readString?]
  · cases readString? w <;> rfl
  · exact h1
  · simp [h2]
  · simp [h2]
  · simp [h2]

theorem readString?_escape {c d : Char} (hu : c ≠ 'u') (h : unescape? c = some d) (w : List Char) :
    readString? ('\\' :: c :: w) = prepend d (readString? w) := by
  rw [readString?, h]
  · cases readString? w <;> rfl
  · simp [hu]
  · simp [hu]

theorem readString?_unit {n : Nat} (hn : n < 0x10000) {c : Char} (hc : unitChar? n = some c) (w : List Char) :
    readString? (unitEscape n ++ w) = prepend c (readString? w) := by
  have hread := readHex?_hexDigits 4 n hn
  obtain ⟨x1, x2, x3, x4, hx⟩ := exists_hexDigits n
  rw [hx] at hread
  rw [unitEscape, hx]
  show readString? ('\\' :: 'u' :: x1 :: x2 :: x3 :: x4 :: w) = _
  by_cases hw : ∃ y1 y2 y3 y4 v, w = '\\' :: 'u' :: y1 :: y2 :: y3 :: y4 :: v
  · obtain ⟨y1, y2, y3, y4, v, rfl⟩ := hw
    rw [readString?, hread]
    simp only [Option.bind_eq_bind, Option.bind_some, hc]
    cases readString? ('\\' :: 'u' :: y1 :: y2 :: y3 :: y4 :: v) <;> rfl
  · rw [readString?, hread]
    · simp only [Option.bind_eq_bind, Option.bind_some, hc]
      cases readString? w <;> rfl
    · intro y1 y2 y3 y4 v hv
      exact hw ⟨y1, y2, y3, y4, v, hv⟩

theorem readString?_units {n m : Nat} (hn : n < 0x10000) (hm : m < 0x10000) {c : Char}
    (hnone : unitChar? n = none) (hc : joinSurrogates? n m = some c) (w : List Char) :
    readString? (unitEscape n ++ (unitEscape m ++ w)) = prepend c (readString? w) := by
  have hread := readHex?_hexDigits 4 n hn
  have hread' := readHex?_hexDigits 4 m hm
  obtain ⟨x1, x2, x3, x4, hx⟩ := exists_hexDigits n
  obtain ⟨y1, y2, y3, y4, hy⟩ := exists_hexDigits m
  rw [hx] at hread
  rw [hy] at hread'
  rw [unitEscape, unitEscape, hx, hy]
  show readString? ('\\' :: 'u' :: x1 :: x2 :: x3 :: x4 :: '\\' :: 'u' :: y1 :: y2 :: y3 :: y4 :: w) = _
  rw [readString?, hread, hread']
  simp only [Option.bind_eq_bind, Option.bind_some, hnone, hc]
  cases readString? w <;> rfl

theorem readString?_shortEscape {c : Char} {u : List Char} (h : shortEscape? c = some u) (w : List Char) :
    readString? (u ++ w) = prepend c (readString? w) := by
  unfold shortEscape? at h
  split at h <;> simp only [Option.some.injEq, reduceCtorEq] at h <;> subst h <;>
    exact readString?_escape (by decide) rfl w

/-- A character without an escape of its own may stand for itself. -/
theorem readString?_self {c : Char} (h : shortEscape? c = none) (w : List Char) :
    readString? (c :: w) = prepend c (readString? w) := by
  have hne : ∀ d, shortEscape? d ≠ none → c ≠ d := by
    rintro d hd rfl
    exact hd h
  exact readString?_plain (hne _ (by decide)) (hne _ (by decide)) w

/-- A character is read back from the form it has in a literal. -/
theorem readString?_literalChar (c : Char) (w : List Char) :
    readString? (literalChar c ++ w) = prepend c (readString? w) := by
  unfold literalChar
  cases h : shortEscape? c with
  | some u => exact readString?_shortEscape h w
  | none =>
    dsimp only
    split
    · exact readString?_self h w
    · have hvalid := toNat_valid c
      unfold Text.charUnits
      by_cases hbasic : c.toNat < 0x10000
      · simp only [if_pos hbasic, List.flatMap_cons, List.flatMap_nil, List.append_nil]
        exact readString?_unit hbasic (unitChar?_toNat c) w
      · have hhigh : (0xD800 ≤ 0xD800 + (c.toNat - 0x10000) / 0x400 &&
            0xD800 + (c.toNat - 0x10000) / 0x400 < 0xE000) = true := by
          simp only [Bool.and_eq_true, decide_eq_true_eq]
          omega
        have hjoin : joinSurrogates? (0xD800 + (c.toNat - 0x10000) / 0x400)
            (0xDC00 + (c.toNat - 0x10000) % 0x400) = some c := by
          have hpair : (0xD800 ≤ 0xD800 + (c.toNat - 0x10000) / 0x400 &&
              0xD800 + (c.toNat - 0x10000) / 0x400 < 0xDC00 &&
              0xDC00 ≤ 0xDC00 + (c.toNat - 0x10000) % 0x400 &&
              0xDC00 + (c.toNat - 0x10000) % 0x400 < 0xE000) = true := by
            simp only [Bool.and_eq_true, decide_eq_true_eq]
            omega
          have hvalue : 0x10000 + (0xD800 + (c.toNat - 0x10000) / 0x400 - 0xD800) * 0x400 +
              (0xDC00 + (c.toNat - 0x10000) % 0x400 - 0xDC00) = c.toNat := by omega
          rw [joinSurrogates?, if_pos hpair, hvalue, Char.ofNat_toNat]
        simp only [if_neg hbasic, List.flatMap_cons, List.flatMap_nil, List.append_nil, List.append_assoc]
        exact readString?_units (by omega) (by omega) (by rw [unitChar?, if_pos hhigh]) hjoin w

/-- A character is read back from the form it has in a file. -/
theorem readString?_quotedChar (c : Char) (w : List Char) :
    readString? (quotedChar c ++ w) = prepend c (readString? w) := by
  unfold quotedChar
  cases h : shortEscape? c with
  | some u => exact readString?_shortEscape h w
  | none =>
    dsimp only
    split
    · exact readString?_unit (by omega) (unitChar?_toNat c) w
    · exact readString?_self h w

/-- A text is read back when each of its characters is, whatever follows. -/
theorem readString?_flatMap {spell : Char → List Char}
    (h : ∀ c w, readString? (spell c ++ w) = prepend c (readString? w)) (s w : List Char) :
    readString? (s.flatMap spell ++ '"' :: w) = some (s, w) := by
  induction s with
  | nil => rw [List.flatMap_nil, List.nil_append, readString?]
  | cons c s ih =>
    rw [List.flatMap_cons, List.append_assoc, h, ih]
    rfl

/-- The literal of a text spells that text. -/
theorem ofLiteral?_literal (s : List Char) : ofLiteral? (literal s) = some s := by
  have h := readString?_flatMap readString?_literalChar s []
  rw [literal, List.cons_append, ofLiteral?, h]

end PagePress.Json
