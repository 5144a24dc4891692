import PagePress.Proofs.Reduce.Blanks
import PagePress.Proofs.Text.Case
import PagePress.Reduce.Images

/-!
Loading hints of images. An image of a well-formed document ends in no slash, so a hint is one
more attribute at its end.
-/

namespace PagePress.Markup

open Text Html

def lazyLoading : Attr := ⟨"loading".toList, some "lazy".toList⟩

def asyncDecoding : Attr := ⟨"decoding".toList, some "async".toList⟩

/-- The hint, unless the attributes mention it. -/
def hintUnless (mention : String) (hint : Attr) (attrs : List Attr) : List Attr :=
  if containsText mention (lower (attrs.flatMap Attr.text)) then [] else [hint]

/-- The attributes of an image with the hints it lacks. -/
def hinted (attrs : List Attr) : List Attr :=
  attrs ++ hintUnless "loading=" lazyLoading attrs ++ hintUnless "decoding=" asyncDecoding attrs

/-- What the pass does to a document. -/
def hinting : Edit where
  attrs n attrs := if n = "img".toList then hinted attrs else attrs
  text s := s

theorem mem_hinted {attrs : List Attr} {a : Attr} (h : a ∈ hinted attrs) :
    a ∈ attrs ∨ a = lazyLoading ∨ a = asyncDecoding := by
  have hhint : ∀ {m x}, a ∈ hintUnless m x attrs → a = x := by
    intro m x hx
    unfold hintUnless at hx
    split at hx
    · cases hx
    · exact List.mem_singleton.1 hx
  rcases List.mem_append.1 h with h | h
  · rcases List.mem_append.1 h with h | h
    · exact .inl h
    · exact .inr (.inl (hhint h))
  · exact .inr (.inr (hhint h))

/-- The hints of an image stand behind its other attributes. -/
theorem exists_hinted (n : List Char) (attrs : List Attr) : ∃ hints, hinting.attrs n attrs = attrs ++ hints ∧
    List.Sublist hints [lazyLoading, asyncDecoding] ∧ (hints ≠ [] → n = "img".toList) := by
  have hhint : ∀ mention hint, List.Sublist (hintUnless mention hint attrs) [hint] := by
    intro mention hint
    unfold hintUnless
    split
    · exact List.nil_sublist _
    · exact List.Sublist.refl _
  by_cases hn : n = "img".toList
  · refine ⟨hintUnless "loading=" lazyLoading attrs ++ hintUnless "decoding=" asyncDecoding attrs, ?_,
      (hhint _ _).append (hhint _ _), fun _ => hn⟩
    simp only [hinting, if_pos hn, hinted, List.append_assoc]
  · refine ⟨[], ?_, List.nil_sublist _, fun h => absurd rfl h⟩
    simp only [hinting, if_neg hn, List.append_nil]

/-- The attributes mention a word in lower case. -/
def mentions (mention : String) (attrs : List Attr) : Bool :=
  containsText mention (lower (attrs.flatMap Attr.text))

theorem mentions_of_infix {mention : String} (hascii : ∀ c ∈ mention.toList, c.toNat < 0x80)
    {attrs attrs' : List Attr} (h : attrs <:+: attrs') (hm : mentions mention attrs = true) :
    mentions mention attrs' = true := by
  rw [mentions, containsText_lower_iff hascii] at hm ⊢
  obtain ⟨u, w, rfl⟩ := h
  refine hm.trans ⟨(u.flatMap Attr.text).flatMap folded, (w.flatMap Attr.text).flatMap folded, ?_⟩
  simp only [List.flatMap_append]

/-- A hint mentions what it is known by, so it is given only once. -/
theorem hintUnless_of_infix {mention : String} {hint : Attr} {attrs attrs' : List Attr}
    (hascii : ∀ c ∈ mention.toList, c.toNat < 0x80) (hhint : mentions mention [hint] = true)
    (hattrs : attrs <:+: attrs') (hadded : hintUnless mention hint attrs <:+: attrs') :
    hintUnless mention hint attrs' = [] := by
  refine if_pos (?_ : mentions mention attrs' = true)
  by_cases hm : mentions mention attrs = true
  · exact mentions_of_infix hascii hattrs hm
  · have hone : hintUnless mention hint attrs = [hint] := if_neg hm
    rw [hone] at hadded
    exact mentions_of_infix hascii hadded hhint

/-- An image with its hints lacks none. -/
theorem hinted_hinted (attrs : List Attr) : hinted (hinted attrs) = hinted attrs := by
  have hattrs : attrs <:+: hinted attrs := ⟨[], _, by rw [hinted, List.nil_append, List.append_assoc]⟩
  have hload : hintUnless "loading=" lazyLoading (hinted attrs) = [] :=
    hintUnless_of_infix (by decide) (by decide) hattrs ⟨attrs, _, rfl⟩
  have hdecode : hintUnless "decoding=" asyncDecoding (hinted attrs) = [] :=
    hintUnless_of_infix (by decide) (by decide) hattrs (List.suffix_append _ _).isInfix
  rw [hinted, hload, hdecode, List.append_nil, List.append_nil]

theorem sound_hinting : hinting.Sound where
  attrs n attrs h x hx := by
    unfold hinting at hx
    dsimp only at hx
    split at hx
    · rcases mem_hinted hx with hx | rfl | rfl
      · exact h x hx
      · exact ⟨by decide, by rintro v ⟨⟩; decide⟩
      · exact ⟨by decide, by rintro v ⟨⟩; decide⟩
    · exact h x hx
  text s h := h

/-- The attributes of a tag end neither in a slash nor in white space. -/
theorem splitSlash_attrs {attrs : List Attr} (h : ∀ a ∈ attrs, a.WellFormed) :
    Reduce.splitSlash (attrs.flatMap Attr.text) = (attrs.flatMap Attr.text, []) := by
  rcases List.eq_nil_or_concat attrs with rfl | ⟨attrs, a, rfl⟩
  · rfl
  · have ha := h a (by simp)
    obtain ⟨u, c, hu, hc, hslash⟩ := ha.exists_last
    have hrev : ((attrs ++ [a]).flatMap Attr.text).reverse = c :: (u.reverse ++ (attrs.flatMap Attr.text).reverse) := by
      simp [hu]
    have hback : (c :: (u.reverse ++ (attrs.flatMap Attr.text).reverse)).reverse =
        (attrs ++ [a]).flatMap Attr.text := by
      rw [← hrev, List.reverse_reverse]
    rw [List.concat_eq_append, Reduce.splitSlash, hrev]
    split
    · rename_i rest heq
      injection heq with heq
      exact absurd heq hslash
    · simp [hc, hback]

theorem opensWith_image : OpensWith ["img"] Reduce.imageTag? where
  contextFree _ _ := rfl
  names := by decide
  none s h := by simp [Reduce.imageTag?, h]

theorem addHint_text (mention : String) (hint : Attr) (attrs attrs' : List Attr) :
    Reduce.addHint mention (.ofList hint.text) (lower (attrs.flatMap Attr.text)) (attrs'.flatMap Attr.text) =
      (attrs' ++ hintUnless mention hint attrs).flatMap Attr.text := by
  unfold Reduce.addHint hintUnless
  split
  · simp
  · simp

theorem takes_imageTag {attrs : List Attr} (h : ∀ a ∈ attrs, a.WellFormed) :
    Takes Reduce.imageTag? (openingText "img".toList attrs) (openingText "img".toList (hinted attrs)) := by
  refine takes_of_eq opensWith_image.contextFree (by simp [openingText]) fun v => ?_
  obtain ⟨k, hk, ht, -⟩ := openTag?_gives (m := "img") (by decide) rfl h (v := v) rfl
  refine ⟨k, ?_, ht⟩
  have hbody : tagBody "img" k.text = attrs.flatMap Attr.text := by
    rw [ht, tagBody_openingText]
  have hload := addHint_text "loading=" lazyLoading attrs attrs
  have hdecode := addHint_text "decoding=" asyncDecoding attrs
    (attrs ++ hintUnless "loading=" lazyLoading attrs)
  have hhints : Reduce.addHint "decoding=" " decoding=\"async\"" (lower (attrs.flatMap Attr.text))
      (Reduce.addHint "loading=" " loading=\"lazy\"" (lower (attrs.flatMap Attr.text))
        (attrs.flatMap Attr.text)) = (hinted attrs).flatMap Attr.text := by
    rw [hinted, ← hdecode, ← hload]
    rfl
  have hvalue : Reduce.imageTag? none (openingText "img".toList attrs ++ v) =
      some ("<img".toList ++ (hinted attrs).flatMap Attr.text ++ [] ++ ['>'], k) := by
    simp only [Reduce.imageTag?, hk, Option.map_some, hbody, splitSlash_attrs h, hhints]
  rw [hvalue]
  simp [openingText]

/-! ### Documents -/

/-- What the scan for images takes, with the tag it puts there. -/
def imagesOnly {ε : Type} : Tag ε → Option (List Char)
  | .opening n attrs =>
    if n = "img".toList then some (openingText n (hinted attrs)) else none
  | _ => none

/-- A slot is passed over by every scan for tags by name. -/
theorem OpensWith.passes_slot {α ε : Type} [Written ε] {saved : List (List Char)} {ms : List String}
    {r : Recognizer α} (h : OpensWith ms r) (s : Slot ε saved) : Passes r (Written.text s) := by
  have hmem : '<' ∉ Nat.toDigits 10 s.index := fun hm => absurd (isDigit_of_mem_digits hm) (by decide)
  exact h.passes_of_first (c := '\x00') (u := Nat.toDigits 10 s.index ++ ['\x00', '>']) (by decide)
    (by decide) (by simp [hmem])

theorem readBy_imageTag {ε : Type} [Written ε] {saved : List (List Char)}
    {d : List (Span (Slot ε saved))} (hd : WellFormed d) :
    ReadBy Reduce.imageTag? imagesOnly d where
  contextFree := opensWith_image.contextFree
  atMark := opensWith_image.atMark
  texts s hs := not_mem_of_textChars (hd s hs).after
  tags s hs := by
    obtain ⟨t, a⟩ := s
    have ht := (hd _ hs).tag
    cases t with
    | declaration t =>
      obtain rfl := ht
      exact opensWith_image.passes_declaration (by decide)
    | comment t => exact opensWith_image.passes_comment fun c hc => (ht c hc).1
    | opening n a =>
      by_cases hn : n = "img".toList
      · subst hn
        exact takes_imageTag ht.2.2
      · show Reads _ _ (if _ then _ else _)
        rw [if_neg hn]
        refine opensWith_image.passes_opening ht.1 (fun m hm he => hn ?_) ht.2.2
        rw [← he, List.mem_singleton.1 hm]
    | closing n => exact opensWith_image.passes_closing ht
    | sealed e => exact opensWith_image.passes_slot e

/-- The last pass of the reduction adds loading hints to images. -/
theorem rewrites_hintImages {ε : Type} [Sealed ε] {d : List (Span ε)} (hd : WellFormed d)
    (hn : NulFree d) : Rewrites Reduce.hintImages d (edit hinting d) := by
  refine Rewrites.around hd hn fun saved d' hd' hmap => ?_
  refine ⟨edit hinting d', hd'.edit sound_hinting, by rw [mapSealed_edit, hmap], ?_⟩
  refine .of_readBy (readBy_imageTag hd') ?_
  clear hmap
  induction d' with
  | nil => rfl
  | cons s d' ih =>
    obtain ⟨t, a⟩ := s
    have htag : (imagesOnly t).getD t.text = (t.edit hinting).text := by
      cases t with
      | opening n attrs =>
        by_cases hn : n = "img".toList
        · simp only [imagesOnly, hinting, Tag.edit, Tag.text, if_pos hn, Option.getD_some]
        · simp only [imagesOnly, hinting, Tag.edit, Tag.text, if_neg hn, Option.getD_none]
      | _ => rfl
    simp [htag, ih (wellFormed_cons.1 hd').2, hinting]

end PagePress.Markup
