import PagePress.Proofs.Markup.Sealed

/-!
Scans of documents. A recogniser that passes over or takes every tag of a document as a whole
makes of the document one segment for each taken tag and plain characters for all else
(`segments_text`). Recognisers of tags by name meet the condition on every tag that cannot be
taken for another one.
-/

namespace PagePress.Markup

open Text Html

variable {α ε : Type} [Written ε] {r : Recognizer α}

/-! ### Scans tag by tag -/

/-- What a scan makes of a tag: it goes over it, or takes it with a value. -/
def Reads (r : Recognizer α) (u : List Char) : Option α → Prop
  | none => Passes r u
  | some a => Takes r u a

/-- The segments of a tag. -/
def tagSegments (u : List Char) : Option α → List (Segment α)
  | none => u.map .plain
  | some a => [.piece u a]

theorem Reads.segments {u : List Char} {o : Option α} (h : Reads r u o) (v : List Char) :
    segments r (u ++ v) = tagSegments u o ++ segments r v := by
  cases o with
  | none => exact h v
  | some a => exact h v

theorem Reads.replaceAll {r : Recognizer (List Char)} {u : List Char} {o : Option (List Char)}
    (h : Reads r u o) (v : List Char) : replaceAll r (u ++ v) = o.getD u ++ replaceAll r v := by
  cases o with
  | none => exact Passes.replaceAll h v
  | some a => exact Takes.replaceAll h v

/-- A document that a recogniser reads tag by tag, with the value of each taken tag. -/
structure ReadBy (r : Recognizer α) (g : Tag ε → Option α) (d : List (Span ε)) : Prop where
  contextFree : ContextFree r
  atMark : AtMark r
  tags : ∀ s ∈ d, Reads r s.tag.text (g s.tag)
  texts : ∀ s ∈ d, '<' ∉ s.after

namespace ReadBy

variable {g : Tag ε → Option α} {d : List (Span ε)}

theorem tail {s : Span ε} (h : ReadBy r g (s :: d)) : ReadBy r g d :=
  ⟨h.contextFree, h.atMark, fun t ht => h.tags t (by simp [ht]), fun t ht => h.texts t (by simp [ht])⟩

/-- The segments of a document with some text behind it. -/
theorem segments_text (h : ReadBy r g d) (v : List Char) :
    segments r (text d ++ v) =
      d.flatMap (fun s => tagSegments s.tag.text (g s.tag) ++ s.after.map .plain) ++ segments r v := by
  induction d with
  | nil => rfl
  | cons s d ih =>
    have htag := (h.tags s (by simp)).segments
    have htext := passes_text h.contextFree h.atMark (h.texts s (by simp))
    rw [text_cons, List.append_assoc, htag, List.append_assoc, htext, ih h.tail]
    simp

/-- The text of a document with the taken tags replaced. -/
theorem replaceAll_text {r : Recognizer (List Char)} {g : Tag ε → Option (List Char)}
    (h : ReadBy r g d) (v : List Char) :
    replaceAll r (text d ++ v) =
      d.flatMap (fun s => (g s.tag).getD s.tag.text ++ s.after) ++ replaceAll r v := by
  induction d with
  | nil => rfl
  | cons s d ih =>
    have htag := (h.tags s (by simp)).replaceAll
    have htext := (passes_text h.contextFree h.atMark (h.texts s (by simp))).replaceAll
    rw [text_cons, List.append_assoc, htag, List.append_assoc, htext, ih h.tail]
    simp

/-- The values that a search finds in a document. -/
theorem findAll_text (h : ReadBy r g d) : findAll r (text d) = d.filterMap fun s => g s.tag := by
  have hs := h.segments_text []
  rw [List.append_nil, segments_nil, List.append_nil] at hs
  unfold findAll
  rw [hs]
  clear hs h
  induction d with
  | nil => rfl
  | cons s d ih =>
    have hplain : ∀ u : List Char, (u.map Segment.plain).filterMap (Segment.value? (α := α)) = [] := by
      intro u
      simp [List.filterMap_eq_nil_iff, Segment.value?]
    rw [List.flatMap_cons, List.filterMap_append, List.filterMap_append, hplain, ih]
    cases hg : g s.tag with
    | none => simp [tagSegments, hplain, hg]
    | some a => simp [tagSegments, hg, Segment.value?]

end ReadBy

/-! ### Tags by name -/

/-- A recogniser of tags, or of elements, that have one of some names. -/
structure OpensWith (ms : List String) (r : Recognizer α) : Prop where
  contextFree : ContextFree r
  names : ∀ m ∈ ms, isName m.toList = true
  none : ∀ s, (∀ m ∈ ms, openTag? m s = none) → r none s = none

theorem not_mem_of_textChars {s : List Char} (h : ∀ c ∈ s, isTextChar c = true) : '<' ∉ s :=
  fun hm => absurd (h _ hm) (by decide)

theorem exists_cons_of_isName {n : List Char} (h : isName n = true) :
    ∃ a w, n = a :: w ∧ isNameChar a = true := by
  obtain ⟨a, w, rfl⟩ : ∃ a w, n = a :: w := by
    cases n with
    | nil => cases h
    | cons a w => exact ⟨a, w, rfl⟩
  exact ⟨a, w, rfl, all_of_isName h a (by simp)⟩

namespace OpensWith

variable {ms : List String} (h : OpensWith ms r)
include h

theorem atMark : AtMark r := fun _ s hc => h.none _ fun m _ => openTag?_of_ne_mark m hc s

/-- What begins with `<` and no letter is passed over. -/
theorem passes_of_first {c : Char} (hc : c.toNat < 128) (hl : isNameChar c.toLower = false)
    {u : List Char} (hu : '<' ∉ c :: u) : Passes r ('<' :: c :: u) := by
  refine passes_tag h.contextFree h.atMark (fun v => h.none _ fun m hm => ?_) hu
  obtain ⟨a, w, hw, ha⟩ := exists_cons_of_isName (h.names m hm)
  have hne : c.toLower ≠ a := by
    rintro rfl
    rw [hl] at ha
    cases ha
  have hs := tagStart?_of_first hw (sameLetter_of_ascii hc hne) (u ++ v)
  rw [List.cons_append, openTag?, hs]
  rfl

theorem passes_declaration {s : List Char} (hs : ∀ c ∈ s, isTextChar c = true) :
    Passes r (Tag.text (ε := ε) (.declaration s)) := by
  refine h.passes_of_first (c := '!') (by decide) (by decide) (u := s ++ ['>']) ?_
  simp [not_mem_of_textChars hs]

theorem passes_comment {s : List Char} (hs : ∀ c ∈ s, isTextChar c = true) :
    Passes r (Tag.text (ε := ε) (.comment s)) := by
  refine h.passes_of_first (c := '!') (by decide) (by decide) (u := '-' :: '-' :: s ++ ['-', '-', '>']) ?_
  simp [not_mem_of_textChars hs]

theorem passes_closing {n : List Char} (hn : isName n = true) : Passes r (closingText n) := by
  refine h.passes_of_first (c := '/') (by decide) (by decide) (u := n ++ ['>']) ?_
  have := not_mem_of_textChars fun c hc => (NameChar.of_isNameChar (all_of_isName hn c hc)).isTextChar
  simp [this]

theorem passes_opening {n : List Char} (hn : isName n = true) (hne : ∀ m ∈ ms, m.toList ≠ n)
    {attrs : List Attr} (ha : ∀ a ∈ attrs, a.WellFormed) : Passes r (openingText n attrs) := by
  refine passes_tag h.contextFree h.atMark
    (fun v => h.none _ fun m hm => openTag?_of_ne (h.names m hm) hn (hne m hm) attrs v)
    (u := n ++ attrs.flatMap Attr.text ++ ['>']) ?_
  have h1 := not_mem_of_textChars fun c hc => (NameChar.of_isNameChar (all_of_isName hn c hc)).isTextChar
  have h2 := not_mem_of_textChars (isTextChar_attrs ha)
  simp only [List.mem_append, not_or]
  exact ⟨⟨h1, h2⟩, by decide⟩

theorem passes_element {e : Element} (he : e.WellFormed) (hne : ∀ m ∈ ms, m.toList ≠ e.name) :
    Passes r (Written.text e) := by
  exact ((h.passes_opening he.isName hne he.attrs).append
    (passes_text h.contextFree h.atMark he.content)).append (h.passes_closing he.isName)

end OpensWith

end PagePress.Markup
