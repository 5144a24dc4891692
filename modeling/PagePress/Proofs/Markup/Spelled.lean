import PagePress.Proofs.Markup.Opening

/-!
Attributes as they are spelt in a tag. White space of any length stands before an attribute and may
stand around its sign of equality, and the value has quotes of either kind or none (`SpelledAttr`).
What follows an attribute is told from it (`EndsAttr`).
-/

namespace PagePress.Markup

open Text

/-- A character of the name of an attribute. -/
def isAttrChar (c : Char) : Bool := !isBlank c && !(['"', '\'', '<', '>', '/', '='].contains c)

/-- A character between two attributes. -/
def isGapChar (c : Char) : Bool := isBlank c || c == '/'

/-! ### Spellings -/

/-- How an attribute goes on behind its name: the white space on both sides of its sign of equality,
and its value as it is or between two quotes. -/
inductive Spelling where
  | bare
  | unquoted (left right value : List Char)
  | quoted (mark : Char) (left right value : List Char)

namespace Spelling

def text : Spelling → List Char
  | bare => []
  | unquoted left right v => left ++ '=' :: (right ++ v)
  | quoted mark left right v => left ++ '=' :: (right ++ mark :: (v ++ [mark]))

def value : Spelling → Option (List Char)
  | bare => none
  | unquoted _ _ v | quoted _ _ _ v => some v

def mapValue (f : List Char → List Char) : Spelling → Spelling
  | bare => bare
  | unquoted left right v => unquoted left right (f v)
  | quoted mark left right v => quoted mark left right (f v)

/-- A value without quotes holds none, no white space and no end of a tag; one between quotes does not
hold its quote. -/
def WellFormed : Spelling → Prop
  | bare => True
  | unquoted left right v =>
    (∀ c ∈ left, isBlank c = true) ∧ (∀ c ∈ right, isBlank c = true) ∧ v ≠ [] ∧
      ∀ c ∈ v, isBlank c = false ∧ c ∉ ['>', '"', '\'']
  | quoted mark left right v =>
    (∀ c ∈ left, isBlank c = true) ∧ (∀ c ∈ right, isBlank c = true) ∧
      (mark = '"' ∨ mark = '\'') ∧ mark ∉ v

@[simp] theorem value_mapValue (f : List Char → List Char) (s : Spelling) :
    (s.mapValue f).value = s.value.map f := by
  cases s <;> rfl

end Spelling

/-- An attribute as it is spelt, with the white space before it. -/
structure SpelledAttr where
  before : List Char
  name : List Char
  spelling : Spelling

namespace SpelledAttr

/-- An attribute without the white space before it. -/
def body (a : SpelledAttr) : List Char := a.name ++ a.spelling.text

def text (a : SpelledAttr) : List Char := a.before ++ a.body

/-- The attribute that is spelt. -/
def attr (a : SpelledAttr) : Attr := ⟨a.name, a.spelling.value⟩

def mapValue (f : List Char → List Char) (a : SpelledAttr) : SpelledAttr :=
  { a with spelling := a.spelling.mapValue f }

structure WellFormed (a : SpelledAttr) : Prop where
  before_ne : a.before ≠ []
  before : ∀ c ∈ a.before, isBlank c = true
  name_ne : a.name ≠ []
  name : ∀ c ∈ a.name, isAttrChar c = true
  spelling : a.spelling.WellFormed

theorem attr_mapValue (f : List Char → List Char) (a : SpelledAttr) :
    (a.mapValue f).attr = ⟨a.attr.name, a.attr.value.map f⟩ := by
  simp [attr, mapValue]

end SpelledAttr

theorem not_blank_of_isAttrChar {c : Char} (h : isAttrChar c = true) : isBlank c = false := by
  simp only [isAttrChar, Bool.and_eq_true, Bool.not_eq_true'] at h
  exact h.1

theorem ne_of_isAttrChar {c d : Char} (h : isAttrChar c = true) (hd : isAttrChar d = false := by decide) :
    c ≠ d := by
  rintro rfl
  rw [h] at hd
  cases hd

theorem not_gap_of_isAttrChar {c : Char} (h : isAttrChar c = true) : isGapChar c = false := by
  rw [isGapChar, not_blank_of_isAttrChar h, Bool.false_or]
  exact beq_false_of_ne (ne_of_isAttrChar h)

theorem ne_nil_of_isAttrName {n : List Char} (h : isAttrName n = true) : n ≠ [] := by
  rintro rfl
  cases h

theorem isAttrChar_of_isAttrName {n : List Char} (h : isAttrName n = true) :
    ∀ c ∈ n, isAttrChar c = true := by
  intro c hc
  rcases mem_name_of_isAttrName h c hc with h | rfl
  · have key : ∀ n < 128, isNameChar (.ofNat n) = true → isAttrChar (.ofNat n) = true := by decide
    exact of_ascii (p := fun c => isNameChar c = true → isAttrChar c = true) key (toNat_of_isNameChar h) h
  · decide

theorem not_blank_of_isAttrName {n : List Char} (h : isAttrName n = true) : ∀ c ∈ n, isBlank c = false :=
  fun c hc => not_blank_of_isAttrChar (isAttrChar_of_isAttrName h c hc)

/-- An attribute in the spelling of documents that are written here. -/
def Attr.spell (a : Attr) : SpelledAttr :=
  ⟨[' '], a.name, a.value.elim .bare (.quoted '"' [] [])⟩

@[simp] theorem Attr.text_spell (a : Attr) : a.spell.text = a.text := by
  obtain ⟨n, v⟩ := a
  cases v <;> simp [spell, SpelledAttr.text, SpelledAttr.body, Spelling.text, text]

@[simp] theorem Attr.attr_spell (a : Attr) : a.spell.attr = a := by
  obtain ⟨n, v⟩ := a
  cases v <;> rfl

theorem Attr.spell_wellFormed {a : Attr} (hn : isAttrName a.name = true)
    (hv : ∀ v, a.value = some v → '"' ∉ v) : a.spell.WellFormed where
  before_ne := by simp [spell]
  before := by
    have : isBlank ' ' = true := by decide
    simpa [spell] using this
  name_ne := ne_nil_of_isAttrName hn
  name := isAttrChar_of_isAttrName hn
  spelling := by
    cases h : a.value with
    | none => simp [spell, h, Spelling.WellFormed]
    | some v => simpa [spell, h, Spelling.WellFormed] using hv v h

theorem Attr.WellFormed.spell {a : Attr} (h : a.WellFormed) : a.spell.WellFormed :=
  spell_wellFormed h.name fun v hv hm => absurd (h.value v hv _ hm) (by decide)

theorem flatMap_text_spell (attrs : List Attr) :
    (attrs.map Attr.spell).flatMap SpelledAttr.text = attrs.flatMap Attr.text := by
  simp [List.flatMap_map]

/-! ### What follows an attribute -/

/-- The end of a tag, or white space before it or before another attribute. -/
inductive EndsAttr : List Char → Prop where
  | mark (v : List Char) : EndsAttr ('>' :: v)
  | space {u : List Char} {c : Char} (hne : u ≠ []) (hu : ∀ d ∈ u, isBlank d = true)
      (hc : isAttrChar c = true ∨ c = '/' ∨ c = '>') (v : List Char) : EndsAttr (u ++ c :: v)

theorem SpelledAttr.WellFormed.endsAttr {a : SpelledAttr} (h : a.WellFormed) (v : List Char) :
    EndsAttr (a.text ++ v) := by
  obtain ⟨c, n, hn⟩ := List.exists_cons_of_ne_nil h.name_ne
  have hc := h.name c (by simp [hn])
  have htext : a.text ++ v = a.before ++ c :: (n ++ (a.spelling.text ++ v)) := by
    simp [text, body, hn]
  rw [htext]
  exact .space h.before_ne h.before (.inl hc) _

theorem endsAttr_attrs {attrs : List SpelledAttr} (ha : ∀ a ∈ attrs, a.WellFormed) {w : List Char}
    (hw : EndsAttr w) : EndsAttr (attrs.flatMap SpelledAttr.text ++ w) := by
  cases attrs with
  | nil => exact hw
  | cons a attrs =>
    rw [List.flatMap_cons, List.append_assoc]
    exact (ha a (by simp)).endsAttr _

namespace EndsAttr

variable {w : List Char} (hw : EndsAttr w)
include hw

/-- It begins with white space or the end of the tag. -/
theorem head : ∃ c v, w = c :: v ∧ (isBlank c = true ∨ c = '>') := by
  cases hw with
  | mark v => exact ⟨'>', v, rfl, .inr rfl⟩
  | @space u c hne hu _ v =>
    obtain ⟨d, u, rfl⟩ := List.exists_cons_of_ne_nil hne
    exact ⟨d, u ++ c :: v, rfl, .inl (hu d (by simp))⟩

theorem not_attrChar : ∀ d x, w = d :: x → isAttrChar d = false := by
  rintro d x rfl
  obtain ⟨c, v, hcv, hc⟩ := hw.head
  obtain ⟨rfl, -⟩ := List.cons.inj hcv
  rcases hc with hc | rfl
  · simp [isAttrChar, hc]
  · decide

theorem head_ne {mark : Char} (hmark : isBlank mark = false ∧ mark ≠ '>') : w.head? ≠ some mark := by
  obtain ⟨c, v, rfl, hc⟩ := hw.head
  rw [List.head?_cons, ne_eq, Option.some.injEq]
  rintro rfl
  rcases hc with hc | hc
  · rw [hmark.1] at hc
    cases hc
  · exact hmark.2 hc

/-- Behind white space stands no sign of equality and no quote. -/
theorem dropWhile_eq : ∃ c v, w.dropWhile isBlank = c :: v ∧ c ∉ ['=', '"', '\''] := by
  cases hw with
  | mark v => exact ⟨'>', v, rfl, by decide⟩
  | @space u c hne hu hc v =>
    have hfacts : isBlank c = false ∧ c ∉ ['=', '"', '\''] := by
      rcases hc with hc | rfl | rfl
      · have hmarks : ∀ d ∈ ['=', '"', '\''], isAttrChar d = false := by decide
        exact ⟨not_blank_of_isAttrChar hc, fun hm => ne_of_isAttrChar hc (hmarks c hm) rfl⟩
      · decide
      · decide
    refine ⟨c, v, ?_, hfacts.2⟩
    rw [List.dropWhile_append_of_pos hu, List.dropWhile_cons_of_neg (by simp [hfacts.1])]

end EndsAttr

end PagePress.Markup
