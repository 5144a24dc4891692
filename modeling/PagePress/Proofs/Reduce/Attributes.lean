import PagePress.Proofs.Reduce.EmptyAttributes

/-!
Documents without empty attributes. The attributes of the documents that are written here are spelt in
one way, and the pass that drops empty attributes changes such a document attribute by attribute
(`rewrites_dropEmptyAttributes`).
-/

namespace PagePress.Markup

open Text Html

/-! ### Attributes -/

/-- An attribute after the pass, if it stays. -/
def Attr.emptied? (a : Attr) : Option Attr :=
  match a.value with
  | none => some a
  | some [] => if a.name = "alt".toList then some a else none
  | some v => some ⟨a.name, some (cleanse v)⟩

/-- What the pass does to a document. -/
def emptying : Edit where
  attrs _ attrs := attrs.filterMap Attr.emptied?
  text s := s

theorem Attr.emptied?_name {a b : Attr} (h : a.emptied? = some b) : b.name = a.name := by
  unfold Attr.emptied? at h
  split at h
  · rw [← Option.some.inj h]
  · split at h
    · rw [← Option.some.inj h]
    · cases h
  · rw [← Option.some.inj h]

theorem Attr.mem_emptied? {a b : Attr} (h : a.emptied? = some b) {v : List Char}
    (hv : b.value = some v) : ∃ u, a.value = some u ∧ ∀ c ∈ v, c ∈ u := by
  unfold Attr.emptied? at h
  split at h
  · rw [← Option.some.inj h] at hv
    exact ⟨v, hv, fun c hc => hc⟩
  · split at h
    · rw [← Option.some.inj h] at hv
      exact ⟨v, by assumption, fun c hc => hc⟩
    · cases h
  · rename_i u _ hu
    rw [← Option.some.inj h] at hv
    obtain rfl := Option.some.inj hv
    exact ⟨u, hu, fun c hc => mem_cleanse hc⟩

theorem sound_emptying : emptying.Sound where
  attrs n attrs h x hx := by
    obtain ⟨a, ha, hx⟩ := List.mem_filterMap.1 hx
    refine ⟨Attr.emptied?_name hx ▸ (h a ha).name, fun v hv c hc => ?_⟩
    obtain ⟨u, hu, hmem⟩ := Attr.mem_emptied? hx hv
    exact (h a ha).value u hu c (hmem c hc)
  text s h := h

theorem nulFree_emptying : emptying.NulFree where
  attrs n attrs h x hx v hv hn := by
    obtain ⟨a, ha, hx⟩ := List.mem_filterMap.1 hx
    obtain ⟨u, hu, hmem⟩ := Attr.mem_emptied? hx hv
    exact h a ha u hu (hmem _ hn)
  text s h := h

theorem isReduceNameChar_of_isAttrName {n : List Char} (h : isAttrName n = true) :
    ∀ c ∈ n, Reduce.isNameChar c = true := by
  intro c hc
  rcases mem_name_of_isAttrName h c hc with h | rfl
  · simp [Reduce.isNameChar, (NameChar.of_isNameChar h).isWord]
  · decide

theorem lower_of_isAttrName {n : List Char} (h : isAttrName n = true) : lower n = n := by
  have key : ∀ c ∈ n, c.toNat < 0x80 ∧ c.toLower = c := by
    intro c hc
    rcases mem_name_of_isAttrName h c hc with h | rfl
    · have hn := toNat_of_isNameChar h
      have : ∀ k < 128, isNameChar (.ofNat k) = true → (Char.ofNat k).toLower = .ofNat k := by decide
      refine ⟨hn, ?_⟩
      have := this c.toNat hn
      rw [Char.ofNat_toNat] at this
      exact this h
    · decide
  rw [lower_of_ascii fun c hc => (key c hc).1]
  exact (List.map_congr_left fun c hc => (key c hc).2).trans (List.map_id n)

/-- An attribute that is written here is kept as the pass keeps its spelling. -/
theorem kept?_spell {a : Attr} (hn : isAttrName a.name = true) :
    a.spell.kept? = a.emptied?.map Attr.spell := by
  have hname : (a.name.all Reduce.isNameChar) = true := by
    simpa using isReduceNameChar_of_isAttrName hn
  obtain ⟨n, v⟩ := a
  rw [SpelledAttr.kept?, Attr.attr_spell]
  rcases v with _ | _ | ⟨c, v⟩
  · simp [Attr.isDropped, Attr.emptied?, SpelledAttr.mapValue, Attr.spell, Spelling.mapValue]
  · have hdropped : Attr.isDropped ⟨n, some []⟩ = (n != "alt".toList) := by
      simp only [Attr.isDropped, hname, lower_of_isAttrName hn, beq_self_eq_true, Bool.and_self, Bool.true_and]
    have hkeep : (Attr.spell ⟨n, some []⟩).mapValue cleanse = Attr.spell ⟨n, some []⟩ := by
      simp [SpelledAttr.mapValue, Attr.spell, Spelling.mapValue, cleanse]
    by_cases halt : n = "alt".toList
    · rw [hdropped, Attr.emptied?, if_pos halt, if_neg (by simp [halt]), hkeep]
      rfl
    · rw [hdropped, Attr.emptied?, if_neg halt, if_pos (by simpa using halt)]
      rfl
  · simp [Attr.isDropped, Attr.emptied?, SpelledAttr.mapValue, Attr.spell, Spelling.mapValue]

theorem replaceAll_openingText {n : List Char} (hn : isName n = true) {attrs : List Attr}
    (h : ∀ a ∈ attrs, a.WellFormed) :
    replaceAll Reduce.emptyAttribute? (openingText n attrs) =
      openingText n (attrs.filterMap Attr.emptied?) := by
  have hkept : (attrs.map Attr.spell).filterMap SpelledAttr.kept? =
      (attrs.filterMap Attr.emptied?).map Attr.spell := by
    rw [List.filterMap_map, List.map_filterMap]
    exact List.filterMap_congr fun a ha => kept?_spell (h a ha).name
  have hattrs : replaceAll Reduce.emptyAttribute? (attrs.flatMap Attr.text ++ ['>']) =
      (attrs.filterMap Attr.emptied?).flatMap Attr.text ++ ['>'] := by
    have hspell : ∀ a ∈ attrs.map Attr.spell, a.WellFormed := by
      simp only [List.mem_map]
      rintro _ ⟨a, ha, rfl⟩
      exact (h a ha).spell
    have hmark : replaceAll Reduce.emptyAttribute? ['>'] = ['>'] :=
      cleanse_of_solid (v := ['>']) (by decide)
    rw [← flatMap_text_spell, replaceAll_spelledAttrs hspell (.mark []), hkept, flatMap_text_spell, hmark]
  have hname : ∀ c ∈ '<' :: n, isBlank c = false := by
    intro c hc
    rcases List.mem_cons.1 hc with rfl | hc
    · decide
    · exact not_blank_of_isName hn c hc
  rw [openingText, List.append_assoc, replaceAll_solid hname, hattrs]
  simp [openingText]

/-! ### Documents -/

/-- What the scan for start tags takes, with the tag it puts there. -/
def startTagsOnly {ε : Type} : Tag ε → Option (List Char)
  | .opening n attrs => some (openingText n (attrs.filterMap Attr.emptied?))
  | _ => none

theorem contextFree_startTag : ContextFree Reduce.startTag? := fun _ _ => rfl

theorem atMark_startTag : AtMark Reduce.startTag? := by
  intro c s hc
  simp [Reduce.startTag?, Cut.char?, beq_false_of_ne hc]

/-- A tag whose `<` is not before a letter is no start tag. -/
theorem passes_startTag {c : Char} {u : List Char} (hc : c.isAlpha = false) (hu : '<' ∉ c :: u) :
    Passes Reduce.startTag? ('<' :: c :: u) := by
  refine passes_tag contextFree_startTag atMark_startTag (fun v => ?_) hu
  simp [Reduce.startTag?, Cut.char?, hc]

theorem takes_startTag {n : List Char} (hn : isName n = true) {attrs : List Attr}
    (h : ∀ a ∈ attrs, a.WellFormed) :
    Takes Reduce.startTag? (openingText n attrs) (openingText n (attrs.filterMap Attr.emptied?)) := by
  refine takes_of_eq contextFree_startTag (by simp [openingText]) fun v => ?_
  obtain ⟨c, w, rfl, -⟩ := exists_cons_of_isName hn
  have hc : c.isAlpha = true := by
    simp only [isName, Bool.and_eq_true] at hn
    exact isAlpha_of_isLower hn.1
  have hbody : ∀ d ∈ w ++ attrs.flatMap Attr.text, isTextChar d = true := by
    intro d hd
    rcases List.mem_append.1 hd with hd | hd
    · exact (NameChar.of_isNameChar (all_of_isName hn d (by simp [hd]))).isTextChar
    · exact isTextChar_attrs h d hd
  obtain ⟨k1, h1, t1, r1⟩ := Cut.char?_gives (s := openingText (c :: w) attrs ++ v) (p := (· == '<'))
    (c := '<') (v := c :: (w ++ attrs.flatMap Attr.text ++ '>' :: v)) (by simp [openingText]) (by decide)
  obtain ⟨k2, h2, t2, r2⟩ := Cut.char?_gives (p := Char.isAlpha) r1 hc
  have hspan : k2.rest.takeWhile isTextChar = w ++ attrs.flatMap Attr.text := by
    rw [r2, List.takeWhile_append_of_pos hbody]
    simp [isTextChar]
  have hdrop : k2.rest.dropWhile isTextChar = '>' :: v := by
    rw [r2, List.dropWhile_append_of_pos hbody]
    simp [isTextChar]
  obtain ⟨k3, h3, t3, -⟩ := Cut.char?_gives (s := (Cut.span isTextChar k2.rest).rest)
    (p := (· == '>')) hdrop (by decide)
  have ht : k1.text ++ k2.text ++ k2.rest.takeWhile isTextChar ++ k3.text =
      openingText (c :: w) attrs := by
    rw [t1, t2, t3, hspan]
    simp [openingText]
  refine ⟨((k1.andThen k2).andThen (Cut.span isTextChar k2.rest)).andThen k3, ?_, ht⟩
  have e : Reduce.startTag? none (openingText (c :: w) attrs ++ v) =
      some (replaceAll Reduce.emptyAttribute?
        (k1.text ++ k2.text ++ k2.rest.takeWhile isTextChar ++ k3.text),
        ((k1.andThen k2).andThen (Cut.span isTextChar k2.rest)).andThen k3) := by
    have h3 : Cut.char? (· == '>') (Cut.span (fun c => c != '<' && c != '>') k2.rest).rest = some k3 := h3
    simp only [Reduce.startTag?, h1, h2, h3, Option.bind_eq_bind, Option.bind_some]
    rfl
  rw [e, ht, replaceAll_openingText hn h]

theorem readBy_startTag {ε : Type} [Written ε] {saved : List (List Char)}
    {d : List (Span (Slot ε saved))} (hd : WellFormed d) :
    ReadBy Reduce.startTag? startTagsOnly d where
  contextFree := contextFree_startTag
  atMark := atMark_startTag
  texts s hs := not_mem_of_textChars (hd s hs).after
  tags s hs := by
    obtain ⟨t, a⟩ := s
    have ht := (hd _ hs).tag
    cases t with
    | declaration t =>
      obtain rfl := ht
      exact passes_startTag (c := '!') (u := "DOCTYPE html>".toList) (by decide) (by decide)
    | comment t =>
      have := not_mem_of_textChars fun c hc => (ht c hc).1
      exact passes_startTag (c := '!') (u := '-' :: '-' :: t ++ ['-', '-', '>']) (by decide)
        (by simp [this])
    | opening n a => exact takes_startTag ht.1 ht.2.2
    | closing n =>
      have := not_mem_of_textChars fun x hx =>
        (NameChar.of_isNameChar (all_of_isName ht x hx)).isTextChar
      exact passes_startTag (c := '/') (u := n ++ ['>']) (by decide) (by simp [this])
    | sealed e =>
      have : '<' ∉ Nat.toDigits 10 e.index := fun hm => absurd (isDigit_of_mem_digits hm) (by decide)
      exact passes_startTag (c := '\x00') (u := Nat.toDigits 10 e.index ++ ['\x00', '>']) (by decide)
        (by simp [this])

/-- The fifth pass of the reduction drops the attributes without a value. -/
theorem rewrites_dropEmptyAttributes {ε : Type} [Sealed ε] {d : List (Span ε)} (hd : WellFormed d)
    (hn : NulFree d) : Rewrites Reduce.dropEmptyAttributes d (edit emptying d) := by
  refine Rewrites.around hd hn fun saved d' hd' hmap => ?_
  refine ⟨edit emptying d', hd'.edit sound_emptying, by rw [mapSealed_edit, hmap], ?_⟩
  refine .of_readBy (readBy_startTag hd') ?_
  clear hmap
  induction d' with
  | nil => rfl
  | cons s d' ih =>
    obtain ⟨t, a⟩ := s
    have htag : (startTagsOnly t).getD t.text = (t.edit emptying).text := by cases t <;> rfl
    simp [htag, ih (wellFormed_cons.1 hd').2, emptying]

end PagePress.Markup
