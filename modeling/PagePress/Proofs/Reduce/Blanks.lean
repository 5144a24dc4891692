import Mathlib.Data.List.TakeWhile
import PagePress.Proofs.Markup.Shield
import PagePress.Proofs.Markup.Spelled
import PagePress.Proofs.Text.Blank

/-!
White space of documents. Squeezing a document that begins and ends with a tag squeezes each
value and each text by itself: tags neither begin nor end with white space, so no run goes over
the border of a tag, and the white space that goes between tags is the text of a span that holds
nothing else.
-/

namespace PagePress.Markup

open Text Html

/-- What the collapsing of white space does to a document. -/
def collapsing : Edit where
  attrs _ attrs := attrs.map (Attr.mapValue collapse)
  text := collapse

/-- A text between two tags, unless it is white space only. -/
def unlessBlank (s : List Char) : List Char := if s.all isBlank then [] else s

/-- What the removal of white space between tags does to a document. -/
def joining : Edit where
  attrs _ attrs := attrs
  text := unlessBlank

theorem joining_text : joining.text = unlessBlank := rfl

/-- What squeezing does to a document. -/
def squeezing : Edit := collapsing.andThen joining

theorem isValueChar_collapse (v : List Char) (h : ∀ c ∈ v, isValueChar c = true) :
    ∀ c ∈ collapse v, isValueChar c = true := by
  intro c hc
  rcases mem_collapse hc with hc | rfl
  · exact h c hc
  · decide

theorem mem_unlessBlank {s : List Char} {c : Char} (h : c ∈ unlessBlank s) : c ∈ s := by
  unfold unlessBlank at h
  split at h
  · cases h
  · exact h

theorem sound_collapsing : collapsing.Sound where
  attrs n attrs h x hx := by
    obtain ⟨a, ha, rfl⟩ := List.mem_map.1 hx
    exact Edit.mapValue_wellFormed isValueChar_collapse (h a ha)
  text s h c hc := by
    rcases mem_collapse hc with hc | rfl
    · exact h c hc
    · decide

theorem sound_squeezing : squeezing.Sound :=
  sound_collapsing.andThen ⟨fun _ _ h => h, fun _ h c hc => h c (mem_unlessBlank hc)⟩

theorem nulFree_squeezing : squeezing.NulFree where
  attrs n attrs h x hx v hv hn := by
    obtain ⟨a, ha, rfl⟩ := List.mem_map.1 hx
    obtain ⟨u, hu, rfl⟩ := Option.map_eq_some_iff.1 hv
    rcases mem_collapse hn with hn | hn
    · exact h a ha u hu hn
    · exact absurd hn (by decide)
  text s h hn := by
    rcases mem_collapse (mem_unlessBlank hn) with hn | hn
    · exact h hn
    · exact absurd hn (by decide)

/-! ### Tags -/

theorem not_blank_of_isName {n : List Char} (h : isName n = true) : ∀ c ∈ n, isBlank c = false :=
  fun c hc => (NameChar.of_isNameChar (all_of_isName h c hc)).isBlank

theorem ne_nil_of_isName {n : List Char} (h : isName n = true) : n ≠ [] := by
  rintro rfl
  cases h

/-- An attribute ends in a letter, a hyphen or a quotation mark. -/
theorem Attr.WellFormed.exists_last {a : Attr} (h : a.WellFormed) :
    ∃ u c, a.text = u ++ [c] ∧ isBlank c = false ∧ c ≠ '/' := by
  rw [Attr.text]
  cases a.value with
  | none =>
    have hne := ne_nil_of_isAttrName h.name
    have hmem := List.getLast_mem hne
    refine ⟨' ' :: a.name.dropLast, a.name.getLast hne, ?_, not_blank_of_isAttrName h.name _ hmem, ?_⟩
    · simp [List.dropLast_concat_getLast hne]
    · intro hslash
      rw [hslash] at hmem
      rcases mem_name_of_isAttrName h.name _ hmem with h | h <;> exact absurd h (by decide)
  | some v => exact ⟨' ' :: a.name ++ '=' :: '"' :: v, '"', by simp, by decide, by decide⟩

theorem Attr.WellFormed.endsSolid {a : Attr} (h : a.WellFormed) : EndsSolid a.text := by
  obtain ⟨u, c, hu, hc, -⟩ := h.exists_last
  exact ⟨u, c, hu, hc⟩

theorem Attr.WellFormed.collapse_text {a : Attr} (h : a.WellFormed) :
    collapse a.text = (a.mapValue collapse).text := by
  have hname : ∀ w, collapse (' ' :: a.name ++ w) = ' ' :: a.name ++ collapse w := by
    intro w
    obtain ⟨c, s, hc⟩ := List.exists_cons_of_ne_nil (ne_nil_of_isAttrName h.name)
    have hsolid := endsSolid_of_forall (ne_nil_of_isAttrName h.name) (not_blank_of_isAttrName h.name)
    have hfirst : isBlank c = false := not_blank_of_isAttrName h.name c (by simp [hc])
    have hspace : collapse (' ' :: (a.name ++ w)) = ' ' :: collapse (a.name ++ w) := by
      rw [hc, List.cons_append]
      exact Text.collapse_append hfirst [' '] (s ++ w)
    rw [List.cons_append, hspace, hsolid.collapse_append,
      collapse_of_forall (not_blank_of_isAttrName h.name)]
    rfl
  rw [Attr.text, Attr.text, Attr.mapValue, hname]
  cases a.value with
  | none => rfl
  | some v =>
    have hv : collapse ('=' :: '"' :: v ++ ['"']) = '=' :: '"' :: collapse v ++ ['"'] := by
      rw [List.cons_append, List.cons_append, collapse_cons_of_not_blank (by decide),
        collapse_cons_of_not_blank (by decide), Text.collapse_append (by decide)]
      rfl
    exact congrArg _ hv

theorem collapse_attrs {attrs : List Attr} (h : ∀ a ∈ attrs, a.WellFormed) (v : List Char) :
    collapse (attrs.flatMap Attr.text ++ v) =
      (attrs.map (Attr.mapValue collapse)).flatMap Attr.text ++ collapse v := by
  induction attrs with
  | nil => rfl
  | cons a attrs ih =>
    have ha := h a (by simp)
    have ih := ih fun x hx => h x (by simp [hx])
    rw [List.flatMap_cons, List.append_assoc, ha.endsSolid.collapse_append, ih, ha.collapse_text]
    simp

/-- No comments are left. -/
def Uncommented {ε : Type} (d : List (Span ε)) : Prop := ∀ s ∈ d, ∀ t, s.tag ≠ .comment t

section

variable {ε : Type} [Written ε] {saved : List (List Char)}

theorem isDigit_of_mem_digits {i : Nat} {c : Char} (h : c ∈ Nat.toDigits 10 i) : c.isDigit = true :=
  Nat.isDigit_of_mem_toDigits (by decide) (by decide) h

theorem not_blank_of_isDigit {c : Char} (h : c.isDigit = true) : isBlank c = false :=
  (NameChar.of_isNameChar (by simp [isNameChar, h])).isBlank

/-- A tag is its marks and what is between them; it has its `>` at the end only. -/
theorem Tag.WellFormed.exists_text {t : Tag (Slot ε saved)} (h : t.WellFormed) :
    ∃ u, t.text = '<' :: u ++ ['>'] ∧ '>' ∉ u := by
  have key : ∀ u : List Char, (∀ c ∈ u, isTextChar c = true) → '>' ∉ u :=
    fun u hu hm => absurd (hu _ hm) (by decide)
  have hname : ∀ n : List Char, isName n = true → ∀ c ∈ n, isTextChar c = true :=
    fun n hn c hc => (NameChar.of_isNameChar (all_of_isName hn c hc)).isTextChar
  cases t with
  | declaration t =>
    obtain rfl := h
    exact ⟨"!DOCTYPE html".toList, rfl, by decide⟩
  | comment t =>
    have := key t fun c hc => (h c hc).1
    exact ⟨'!' :: '-' :: '-' :: t ++ ['-', '-'], by simp [Tag.text], by simp [this]⟩
  | opening n a =>
    have h1 := key n (hname n h.1)
    have h2 := key _ (isTextChar_attrs h.2.2)
    refine ⟨n ++ a.flatMap Attr.text, rfl, ?_⟩
    rw [List.mem_append, not_or]
    exact ⟨h1, h2⟩
  | closing n =>
    have := key n (hname n h)
    exact ⟨'/' :: n, rfl, by simp [this]⟩
  | sealed e =>
    have : '>' ∉ Nat.toDigits 10 e.index := fun hm => absurd (isDigit_of_mem_digits hm) (by decide)
    exact ⟨'\x00' :: Nat.toDigits 10 e.index ++ ['\x00'], by simp [Tag.text, Written.text, Shield.placeholder], by simp [this]⟩

/-- Collapsing the white space of a tag collapses that of its values. -/
theorem Tag.WellFormed.collapse_text {t : Tag (Slot ε saved)} (h : t.WellFormed)
    (hc : ∀ s, t ≠ .comment s) (v : List Char) :
    collapse (t.text ++ v) = (t.edit collapsing).text ++ collapse v := by
  have hsolid : EndsSolid t.text := by
    obtain ⟨u, hu, -⟩ := h.exists_text
    exact ⟨'<' :: u, '>', hu, by decide⟩
  rw [hsolid.collapse_append]
  congr 1
  cases t with
  | declaration t =>
    obtain rfl := h
    rfl
  | comment t => exact absurd rfl (hc t)
  | opening n a =>
    have hn := endsSolid_of_forall (ne_nil_of_isName h.1) (not_blank_of_isName h.1)
    have hmark : isBlank '<' = false := by decide
    show collapse ('<' :: n ++ a.flatMap Attr.text ++ ['>']) = _
    rw [List.append_assoc, List.cons_append, collapse_cons_of_not_blank hmark, hn.collapse_append,
      collapse_of_forall (not_blank_of_isName h.1), collapse_attrs h.2.2,
      collapse_of_forall (s := ['>']) (by decide)]
    simp [Tag.edit, Tag.text, openingText, collapsing]
  | closing n =>
    refine collapse_of_forall fun c hc => ?_
    simp only [Tag.text, closingText, List.cons_append, List.mem_cons, List.mem_append,
      List.not_mem_nil, or_false] at hc
    rcases hc with rfl | rfl | hc | rfl
    · decide
    · decide
    · exact not_blank_of_isName h c hc
    · decide
  | sealed e =>
    refine collapse_of_forall fun c hc => ?_
    simp only [Tag.text, Written.text, Shield.placeholder, List.cons_append, List.mem_cons,
      List.mem_append, List.not_mem_nil, or_false] at hc
    rcases hc with rfl | rfl | hc | rfl | rfl
    · decide
    · decide
    · exact not_blank_of_isDigit (isDigit_of_mem_digits hc)
    · decide
    · decide

/-! ### Documents -/

/-- A document with a tag at its end. -/
def EndsWithTag (d : List (Span ε)) : Prop := ∃ d₀ t, d = d₀ ++ [⟨t, []⟩]

variable {d : List (Span (Slot ε saved))}

theorem exists_mark_text (hd : WellFormed d) (hne : d ≠ []) : ∃ u, text d = '<' :: u := by
  cases d with
  | nil => exact absurd rfl hne
  | cons s d =>
    obtain ⟨u, hu, -⟩ := (hd _ (List.mem_cons_self ..)).tag.exists_text
    exact ⟨u ++ '>' :: (s.after ++ text d), by simp [hu]⟩

theorem collapse_text (hd : WellFormed d) (hc : Uncommented d) (he : EndsWithTag d) (v : List Char) :
    collapse (text d ++ v) = text (edit collapsing d) ++ collapse v := by
  obtain ⟨d₀, t, rfl⟩ := he
  induction d₀ with
  | nil =>
    have ht := (hd _ (List.mem_cons_self ..)).tag.collapse_text (hc _ (List.mem_cons_self ..)) v
    simpa [collapsing] using ht
  | cons s d₀ ih =>
    have hrest : WellFormed (d₀ ++ [⟨t, []⟩]) := fun x hx => hd x (List.mem_cons_of_mem _ hx)
    have ih := ih hrest fun x hx => hc x (List.mem_cons_of_mem _ hx)
    have htag := (hd s (by simp)).tag.collapse_text (hc s (by simp))
    obtain ⟨u, hu⟩ := exists_mark_text hrest (by simp)
    have hmark : isBlank '<' = false := by decide
    have hafter : collapse (s.after ++ (text (d₀ ++ [⟨t, []⟩]) ++ v)) =
        collapse s.after ++ collapse (text (d₀ ++ [⟨t, []⟩]) ++ v) := by
      rw [hu, List.cons_append, Text.collapse_append hmark]
    rw [List.cons_append, text_cons, List.append_assoc, List.append_assoc, htag, hafter, ih]
    simp [collapsing]

/-- White space before the next tag goes if there is nothing else. -/
theorem strip_append {a u : List Char} (ha : '<' ∉ a) :
    strip (a ++ '<' :: u) = unlessBlank a ++ '<' :: u := by
  by_cases h : a.all isBlank = true
  · have hd : (a ++ '<' :: u).dropWhile isBlank = '<' :: u := by
      rw [List.dropWhile_append_of_pos fun c hc => List.all_eq_true.1 h c hc]
      rfl
    rw [strip, if_pos (by rw [hd]; rfl), hd, unlessBlank, if_pos h]
    rfl
  · obtain ⟨c, w, hw⟩ : ∃ c w, a.dropWhile isBlank = c :: w := by
      refine List.exists_cons_of_ne_nil fun hnil => h ?_
      exact List.all_eq_true.2 (List.dropWhile_eq_nil_iff.1 hnil)
    have hd : (a ++ '<' :: u).dropWhile isBlank = c :: w ++ '<' :: u := by
      rw [List.dropWhile_append, hw]
      rfl
    have hc : c ≠ '<' := by
      rintro rfl
      exact ha ((List.dropWhile_suffix isBlank).mem (by simp [hw]))
    rw [strip, if_neg (by rw [hd]; simpa using hc), unlessBlank, if_neg h]

theorem replaceAll_betweenTags?_text (hd : WellFormed d) (he : EndsWithTag d) (v : List Char) :
    replaceAll Reduce.betweenTags? (text d ++ v) =
      text (edit joining d) ++ replaceAll Reduce.betweenTags? (strip v) := by
  have htag : ∀ t : Tag (Slot ε saved), t.WellFormed → ∀ w,
      replaceAll Reduce.betweenTags? (t.text ++ w) =
        t.text ++ replaceAll Reduce.betweenTags? (strip w) := by
    intro t ht w
    obtain ⟨u, hu, hmem⟩ := ht.exists_text
    have hmem : '>' ∉ '<' :: u := by simp [hmem]
    rw [hu, List.append_assoc, replaceAll_betweenTags?_append hmem, List.singleton_append,
      replaceAll_betweenTags?_mark]
    simp
  have hjoin : ∀ t : Tag (Slot ε saved), t.edit joining = t := by
    intro t
    cases t <;> rfl
  obtain ⟨d₀, t, rfl⟩ := he
  induction d₀ with
  | nil =>
    have ht := htag t (hd _ (List.mem_cons_self ..)).tag v
    simpa [hjoin, joining_text, unlessBlank] using ht
  | cons s d₀ ih =>
    have hrest : WellFormed (d₀ ++ [⟨t, []⟩]) := fun x hx => hd x (List.mem_cons_of_mem _ hx)
    have hs := hd s (by simp)
    obtain ⟨u, hu⟩ := exists_mark_text hrest (by simp)
    have hafter : ∀ c ∈ unlessBlank s.after, c ∈ s.after := fun c => mem_unlessBlank
    have hmem : '>' ∉ unlessBlank s.after := fun hm => absurd (hs.after _ (hafter _ hm)) (by decide)
    have hstrip : strip (s.after ++ (text (d₀ ++ [⟨t, []⟩]) ++ v)) =
        unlessBlank s.after ++ (text (d₀ ++ [⟨t, []⟩]) ++ v) := by
      rw [hu, List.cons_append, strip_append (not_mem_of_textChars hs.after)]
    rw [List.cons_append, text_cons, List.append_assoc, List.append_assoc, htag _ hs.tag, hstrip,
      replaceAll_betweenTags?_append hmem, ih hrest]
    simp [hjoin, joining_text]

end

section

variable {ε : Type} {d : List (Span ε)}

theorem EndsWithTag.edit (h : EndsWithTag d) {f : Edit} (hf : f.text [] = []) :
    EndsWithTag (edit f d) := by
  obtain ⟨d₀, t, rfl⟩ := h
  exact ⟨Markup.edit f d₀, t.edit f, by simp [hf]⟩

theorem EndsWithTag.of_mapSealed {δ : Type} {f : ε → δ} (h : EndsWithTag (mapSealed f d)) :
    EndsWithTag d := by
  obtain ⟨d₀, t, h⟩ := h
  obtain ⟨l₁, l₂, rfl, -, h2⟩ := List.map_eq_append_iff.1 h
  obtain ⟨⟨t', a⟩, rfl, h3⟩ := List.map_eq_singleton_iff.1 h2
  injection h3 with _ ha
  obtain rfl : a = [] := ha
  exact ⟨l₁, t', rfl⟩

theorem Uncommented.of_mapSealed {δ : Type} {f : ε → δ} (h : Uncommented (mapSealed f d)) :
    Uncommented d := by
  intro s hs t ht
  refine h ⟨s.tag.map f, s.after⟩ (List.mem_map.2 ⟨s, hs, rfl⟩) t ?_
  simp [ht, Tag.map]

end

/-- The second pass of the reduction squeezes the white space. -/
theorem rewrites_collapseBlanks {ε : Type} [Sealed ε] {d : List (Span ε)} (hd : WellFormed d)
    (hn : NulFree d) (hc : Uncommented d) (he : EndsWithTag d) :
    Rewrites Reduce.collapseBlanks d (edit squeezing d) := by
  refine Rewrites.around hd hn fun saved d' hd' hmap => ?_
  have hc' : Uncommented d' := .of_mapSealed (hmap ▸ hc)
  have he' : EndsWithTag d' := .of_mapSealed (hmap ▸ he)
  refine ⟨edit squeezing d', hd'.edit sound_squeezing, by rw [mapSealed_edit, hmap], fun v => ?_⟩
  have hwf := hd'.edit sound_collapsing
  have hend := he'.edit (f := collapsing) rfl
  have hlast : EndsSolid (text (edit squeezing d')) := by
    obtain ⟨d₀, t, h⟩ := he'.edit (f := squeezing) rfl
    have ht := (hd'.edit sound_squeezing) ⟨t, []⟩ (by simp [h])
    obtain ⟨u, hu, -⟩ := ht.tag.exists_text
    exact ⟨text d₀ ++ '<' :: u, '>', by rw [h, text_append, text_cons, hu]; simp, by decide⟩
  obtain ⟨u, hu⟩ := exists_mark_text (hd'.edit sound_squeezing) (by
    obtain ⟨d₀, t, rfl⟩ := he'
    simp)
  refine ⟨trimEnd (replaceAll Reduce.betweenTags? (strip (collapse v))), ?_, ?_⟩
  · rw [Reduce.squeeze, replaceAll_blanks?, collapse_text hd' hc' he',
      replaceAll_betweenTags?_text hwf hend, edit_edit]
    show trim (text (edit squeezing d') ++ _) = _
    rw [hu] at hlast ⊢
    exact trim_append (by decide) hlast _
  · rintro rfl
    simp [strip, trimEnd]

end PagePress.Markup
