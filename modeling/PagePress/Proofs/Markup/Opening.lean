import PagePress.Proofs.Markup

/-!
Recognition of tags by name. The name of a tag is compared without regard to case and has to end
where the recognised word ends; for a tag of a well-formed document that is equality of the two
names (`openTag?_gives`).
-/

namespace PagePress.Markup

open Text Html

/-! ### Characters of names -/

theorem of_ascii {p : Char → Prop} (h : ∀ n < 128, p (.ofNat n)) {c : Char} (hc : c.toNat < 128) :
    p c := by
  have := h c.toNat hc
  rwa [Char.ofNat_toNat] at this

theorem toNat_of_isAlphanum {c : Char} (h : c.isAlphanum = true) : c.toNat < 128 := by
  have below : ∀ {b : Char}, c.val ≤ b.val → b.toNat < 128 → c.toNat < 128 :=
    fun h hb => (UInt32.le_iff_toNat_le.1 h).trans_lt hb
  rcases Bool.or_eq_true_iff.1 h with h | h
  · rcases Bool.or_eq_true_iff.1 h with h | h
    · have h : decide ('A'.val ≤ c.val ∧ c.val ≤ 'Z'.val) = true := h
      exact below (of_decide_eq_true h).2 (by decide)
    · have h : (decide ('a'.val ≤ c.val) && decide (c.val ≤ 'z'.val)) = true := h
      exact below (of_decide_eq_true (Bool.and_eq_true_iff.1 h).2) (by decide)
  · have h : (decide ('0'.val ≤ c.val) && decide (c.val ≤ '9'.val)) = true := h
    exact below (of_decide_eq_true (Bool.and_eq_true_iff.1 h).2) (by decide)

theorem toNat_of_isNameChar {c : Char} (h : isNameChar c = true) : c.toNat < 128 := by
  rcases Bool.or_eq_true_iff.1 h with h | h
  · exact toNat_of_isAlphanum (Bool.or_eq_true_iff.2 (.inl (Bool.or_eq_true_iff.2 (.inr h))))
  · exact toNat_of_isAlphanum (Bool.or_eq_true_iff.2 (.inr h))

theorem isAlpha_of_isLower {c : Char} (h : c.isLower = true) : c.isAlpha = true := by
  show (c.isUpper || c.isLower) = true
  rw [h, Bool.or_true]

/-- A character of a name is its own small letter and part of a word, and it means nothing else
in a document. -/
structure NameChar (c : Char) : Prop where
  caseless : caseless c = c
  isWord : isWord c = true
  isTextChar : isTextChar c = true
  isBlank : isBlank c = false
  ne_long_s : c ≠ 'ſ'
  ne_dotless_i : c ≠ 'ı'

theorem NameChar.of_isNameChar {c : Char} (h : isNameChar c = true) : NameChar c := by
  have key : ∀ n < 128, isNameChar (.ofNat n) = true →
      Text.caseless (.ofNat n) = .ofNat n ∧ Text.isWord (.ofNat n) = true ∧
        Markup.isTextChar (.ofNat n) = true ∧ Text.isBlank (.ofNat n) = false ∧
        Char.ofNat n ≠ 'ſ' ∧ Char.ofNat n ≠ 'ı' := by decide
  have := key c.toNat (toNat_of_isNameChar h)
  rw [Char.ofNat_toNat] at this
  obtain ⟨h1, h2, h3, h4, h5, h6⟩ := this h
  exact ⟨h1, h2, h3, h4, h5, h6⟩

theorem sameLetter_of_isNameChar {a c : Char} (h : isNameChar c = true) :
    sameLetter a c = (c == a) := by
  have hc := NameChar.of_isNameChar h
  have h1 : (c == 'ſ') = false := by simpa using hc.ne_long_s
  have h2 : (c == 'ı') = false := by simpa using hc.ne_dotless_i
  simp [sameLetter, hc.caseless, h1, h2]

theorem sameLetter_of_ascii {a c : Char} (hc : c.toNat < 128) (h : c.toLower ≠ a) :
    sameLetter a c = false := by
  have h1 : c ≠ 'İ' := by rintro rfl; revert hc; decide
  have h2 : c ≠ '\u212A' := by rintro rfl; revert hc; decide
  have h3 : c ≠ 'ſ' := by rintro rfl; revert hc; decide
  have h4 : c ≠ 'ı' := by rintro rfl; revert hc; decide
  simp [sameLetter, caseless, h1, h2, h3, h4, h]

/-! ### Names -/

theorem all_of_isName {n : List Char} (h : isName n = true) : ∀ c ∈ n, isNameChar c = true := by
  cases n with
  | nil => cases h
  | cons c n =>
    simp only [isName, Bool.and_eq_true, List.all_eq_true] at h
    intro d hd
    rcases List.mem_cons.1 hd with rfl | hd
    · simp [isNameChar, h.1]
    · exact h.2 d hd

/-- A mark after a name: it belongs to no word. -/
def isNameEnd (c : Char) : Bool := c == ' ' || c == '>'

/-- A word is found at a name when it is the beginning of the name. -/
theorem wordBy?_name {w n : List Char} (hw : ∀ a ∈ w, isNameChar a = true)
    (hn : ∀ c ∈ n, isNameChar c = true) {c : Char} (hc : isNameEnd c = true) (v : List Char) :
    (¬ w <+: n ∧ Cut.wordBy? sameLetter w (n ++ c :: v) = none) ∨
      ∃ t, n = w ++ t ∧ ∃ k : Cut (n ++ c :: v),
        Cut.wordBy? sameLetter w (n ++ c :: v) = some k ∧ k.text = w ∧ k.rest = t ++ c :: v := by
  induction w generalizing n with
  | nil => exact .inr ⟨n, rfl, _, rfl, rfl, rfl⟩
  | cons a w ih =>
    have ha := hw a (by simp)
    cases n with
    | nil =>
      left
      refine ⟨by simp, Cut.wordBy?_neg ?_ _ _⟩
      rcases (by simpa [isNameEnd] using hc : c = ' ' ∨ c = '>') with rfl | rfl
      · exact sameLetter_of_ascii (by decide) (by rintro rfl; revert ha; decide)
      · exact sameLetter_of_ascii (by decide) (by rintro rfl; revert ha; decide)
    | cons d n =>
      have hd := sameLetter_of_isNameChar (a := a) (hn d (by simp))
      by_cases e : d = a
      · subst e
        rcases ih (n := n) (fun x hx => hw x (by simp [hx])) fun x hx => hn x (by simp [hx]) with h | h
        · left
          simp [Cut.wordBy?, hd, h, List.cons_prefix_cons]
        · right
          obtain ⟨t, rfl, k, hk, h1, h2⟩ := h
          refine ⟨t, rfl, ⟨d :: k.text, k.rest, by simp [k.append_eq]⟩, ?_, by simp [h1], h2⟩
          simp only [List.cons_append, Cut.wordBy?, hd, beq_self_eq_true, if_true, hk,
            Option.map_some]
      · left
        refine ⟨fun h => e (List.cons_prefix_cons.1 h).1.symm, Cut.wordBy?_neg ?_ _ _⟩
        simpa [hd] using e

/-! ### Opening tags -/

theorem isWord_of_isNameEnd {c : Char} (h : isNameEnd c = true) : isWord c = false := by
  rcases (by simpa [isNameEnd] using h : c = ' ' ∨ c = '>') with rfl | rfl <;> decide

theorem tagStart?_of_ne_mark (m : String) {c : Char} (hc : c ≠ '<') (s : List Char) :
    tagStart? m (c :: s) = none := by
  simp [tagStart?, Cut.char?, hc]

/-- What is not the start of a name is no tag with a name. -/
theorem tagStart?_of_first {m : String} {a c : Char} {w : List Char} (hm : m.toList = a :: w)
    (h : sameLetter a c = false) (s : List Char) : tagStart? m ('<' :: c :: s) = none := by
  simp [tagStart?, Cut.char?, Cut.wordAnyCase?, hm, Cut.wordBy?_neg h]

section

variable {m : String} {n : List Char} (hm : isName m.toList = true) (hn : isName n = true)
include hm hn

/-- The start of a tag with another name is not recognised. -/
theorem tagStart?_of_ne (hne : m.toList ≠ n) {c : Char} (hc : isNameEnd c = true) (v : List Char) :
    tagStart? m ('<' :: (n ++ c :: v)) = none := by
  rcases wordBy?_name (all_of_isName hm) (all_of_isName hn) hc v with ⟨-, h⟩ | ⟨t, ht, k, hk, -, h⟩
  · simp [tagStart?, Cut.char?, Cut.wordAnyCase?, h]
  · simp only [tagStart?, Cut.char?, beq_self_eq_true, if_true, Option.bind_eq_bind,
      Option.bind_some, Cut.wordAnyCase?, hk, h]
    cases t with
    | nil => exact absurd (by simpa using ht.symm) hne
    | cons d t =>
      have hd : isWord d = true :=
        (NameChar.of_isNameChar (all_of_isName hn d (by rw [ht]; simp))).isWord
      refine if_neg ?_
      simp [endsWord, hd]

/-- The start of a tag with the looked-for name is taken. -/
theorem tagStart?_gives (he : m.toList = n) {c : Char} (hc : isNameEnd c = true)
    {s v : List Char} (hs : s = '<' :: (n ++ c :: v)) :
    Cut.Gives (tagStart? m s) ('<' :: n) (c :: v) := by
  subst hs
  rcases wordBy?_name (all_of_isName hm) (all_of_isName hn) hc v with ⟨h, -⟩ | ⟨t, ht, k, hk, h1, h2⟩
  · exact absurd (he ▸ List.prefix_refl _) h
  · obtain rfl : t = [] := by
      rw [he] at ht
      exact List.append_right_eq_self.1 ht.symm
    have hend : endsWord k.rest = true := by simp [h2, endsWord, isWord_of_isNameEnd hc]
    have e : tagStart? m ('<' :: (n ++ c :: v)) =
        some (Cut.andThen ⟨['<'], n ++ c :: v, rfl⟩ k) := by
      simp only [tagStart?, Cut.char?, beq_self_eq_true, if_true, Option.bind_eq_bind,
        Option.bind_some, Cut.wordAnyCase?, hk, hend]
    exact ⟨_, e, by simp [h1, he], h2⟩

end

/-! ### Attributes -/

theorem isTextChar_of_isValueChar {c : Char} (h : isValueChar c = true) : isTextChar c = true :=
  (Bool.and_eq_true_iff.1 h).1

theorem mem_name_of_isAttrName {n : List Char} (h : isAttrName n = true) :
    ∀ c ∈ n, isNameChar c = true ∨ c = '-' := by
  simp only [isAttrName, Bool.and_eq_true, List.all_eq_true, Bool.or_eq_true, beq_iff_eq] at h
  intro c hc
  exact (h.2 c hc).imp_left fun h => by simp [isNameChar, h]

namespace Attr.WellFormed

variable {a : Attr} (h : a.WellFormed)
include h

theorem isTextChar_text : ∀ c ∈ a.text, isTextChar c = true := by
  intro c hc
  rw [Attr.text, List.cons_append, List.mem_cons, List.mem_append] at hc
  rcases hc with rfl | hc | hc
  · decide
  · rcases mem_name_of_isAttrName h.name c hc with hc | rfl
    · exact (NameChar.of_isNameChar hc).isTextChar
    · decide
  · cases hv : a.value with
    | none => simp [hv] at hc
    | some v =>
      simp only [hv, List.cons_append, List.mem_cons, List.mem_append, List.not_mem_nil,
        or_false] at hc
      rcases hc with rfl | rfl | hc | rfl
      · decide
      · decide
      · exact isTextChar_of_isValueChar (h.value v hv c hc)
      · decide

end Attr.WellFormed

theorem isTextChar_attrs {attrs : List Attr} (ha : ∀ a ∈ attrs, a.WellFormed) :
    ∀ c ∈ attrs.flatMap Attr.text, isTextChar c = true := by
  intro c hc
  obtain ⟨a, ham, hc⟩ := List.mem_flatMap.1 hc
  exact (ha a ham).isTextChar_text c hc

/-- What follows the name of a tag ends the name. -/
theorem exists_nameEnd (attrs : List Attr) (v : List Char) :
    ∃ c w, attrs.flatMap Attr.text ++ '>' :: v = c :: w ∧ isNameEnd c = true := by
  cases attrs with
  | nil => exact ⟨'>', v, rfl, by decide⟩
  | cons a attrs => exact ⟨' ', _, rfl, by decide⟩

theorem close_not_mem_attrs {attrs : List Attr} (ha : ∀ a ∈ attrs, a.WellFormed) :
    '>' ∉ attrs.flatMap Attr.text := fun hm => absurd (isTextChar_attrs ha _ hm) (by decide)

/-- The rest of a tag is what comes before its `>`. -/
theorem throughClose?_gives {s u v : List Char} (hs : s = u ++ '>' :: v) (hu : '>' ∉ u) :
    Cut.Gives (throughClose? s) (u ++ ['>']) v := by
  obtain ⟨htext, hrest⟩ := Cut.span_ne_gives hs hu
  obtain ⟨k, hk, ht, hv⟩ := Cut.char?_gives (p := (· == '>')) hrest (by decide)
  refine ⟨(Cut.span (· != '>') s).andThen k, ?_, ?_, hv⟩
  · simp only [throughClose?, hk, Option.bind_eq_bind, Option.bind_some, Option.pure_def]
  · rw [Cut.andThen_text, htext, ht]

theorem openTag?_of_ne_mark (m : String) {c : Char} (hc : c ≠ '<') (s : List Char) :
    openTag? m (c :: s) = none := by
  rw [openTag?, tagStart?_of_ne_mark m hc]
  rfl

/-- A tag of another name is not recognised. -/
theorem openTag?_of_ne {m : String} {n : List Char} (hm : isName m.toList = true)
    (hn : isName n = true) (hne : m.toList ≠ n) (attrs : List Attr) (v : List Char) :
    openTag? m (openingText n attrs ++ v) = none := by
  obtain ⟨c, w, hcw, hc⟩ := exists_nameEnd attrs v
  have ht : openingText n attrs ++ v = '<' :: (n ++ c :: w) := by simp [openingText, ← hcw]
  rw [ht, openTag?, tagStart?_of_ne hm hn hne hc]
  rfl

/-- Behind the start of a tag stand its attributes, up to its end. -/
theorem tagStart?_openingText {m : String} (hm : isName m.toList = true) {attrs : List Attr}
    (ha : ∀ a ∈ attrs, a.WellFormed) (v : List Char) :
    ∃ k, tagStart? m (openingText m.toList attrs ++ v) = some k ∧ k.text = '<' :: m.toList ∧
      k.rest.takeWhile (· != '>') = attrs.flatMap Attr.text := by
  obtain ⟨c, w, hcw, hc⟩ := exists_nameEnd attrs v
  have ht : openingText m.toList attrs ++ v = '<' :: (m.toList ++ c :: w) := by
    simp [openingText, ← hcw]
  obtain ⟨k, hk, h1, h2⟩ := tagStart?_gives hm hm rfl hc ht
  exact ⟨k, hk, h1, (Cut.span_ne_gives (h2.trans hcw.symm) (close_not_mem_attrs ha)).1⟩

/-- A tag of the looked-for name is taken as a whole. -/
theorem openTag?_gives {m : String} {n : List Char} (hm : isName m.toList = true)
    (he : m.toList = n) {attrs : List Attr} (ha : ∀ a ∈ attrs, a.WellFormed) {s v : List Char}
    (hs : s = openingText n attrs ++ v) : Cut.Gives (openTag? m s) (openingText n attrs) v := by
  obtain ⟨c, w, hcw, hc⟩ := exists_nameEnd attrs v
  have ht : s = '<' :: (n ++ c :: w) := by simp [hs, openingText, ← hcw]
  obtain ⟨k, hk, h1, h2⟩ := tagStart?_gives hm (he ▸ hm) he hc ht
  obtain ⟨k', hk', h1', h2'⟩ := throughClose?_gives (h2.trans hcw.symm) (close_not_mem_attrs ha)
  refine ⟨_, by simp only [openTag?, hk, hk', Option.bind_eq_bind, Option.bind_some]; rfl, ?_, h2'⟩
  simp [h1, h1', openingText]

/-- The body of a tag are its attributes. -/
theorem tagBody_openingText (m : String) (attrs : List Attr) :
    tagBody m (openingText m.toList attrs) = attrs.flatMap Attr.text := by
  have : (openingText m.toList attrs).drop (m.length + 1) = attrs.flatMap Attr.text ++ ['>'] := by
    simp [openingText, ← String.length_toList]
  rw [tagBody, this]
  simp

end PagePress.Markup
