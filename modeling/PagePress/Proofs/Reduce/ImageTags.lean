import PagePress.Proofs.Inspect.Descriptions
import PagePress.Proofs.Reduce.Images

/-!
Image tags and their hints, however the tag is spelt. A hint stands behind the attributes and before the
slash that may end the tag (`StartTag.hinted`). It is given unless some attribute mentions it: holds its
name with the sign of equality directly behind, be it as the end of its own name or in its value. Where
what mentions a hint is what has its name, a tag gets the hints that it lacks (`hints_of_named`).
-/

namespace PagePress.Text

/-- A word that does not hold the first character of a text stands in front of the text or in it. -/
theorem infix_append_iff {α : Type} {w s t : List α} (hw : w ≠ []) (ht : ∀ c ∈ t.head?, c ∉ w) :
    w <:+: s ++ t ↔ w <:+: s ∨ w <:+: t := by
  refine ⟨?_, fun h => h.elim (·.trans (List.prefix_append ..).isInfix) (·.trans (List.suffix_append ..).isInfix)⟩
  rintro ⟨x, y, hxy⟩
  rcases List.append_eq_append_iff.1 hxy with ⟨a, rfl, -⟩ | ⟨a, hxw, rfl⟩
  · exact .inl ⟨x, a, rfl⟩
  · rcases List.append_eq_append_iff.1 hxw with ⟨b, rfl, rfl⟩ | ⟨b, rfl, rfl⟩
    · cases a with
      | nil => exact .inl ⟨x, [], by simp⟩
      | cons c a => exact absurd (List.mem_append_right _ (List.mem_cons_self ..)) (ht c rfl)
    · exact .inr ⟨b, y, rfl⟩

/-- White space stays as it is in lower case. -/
theorem folded_of_isBlank {c : Char} (h : isBlank c = true) : folded c = [c] := by
  have hall : ∀ n ∈ blankCodes, folded (.ofNat n) = [.ofNat n] := by decide +kernel
  simpa using hall c.toNat (mem_blankCodes h)

end PagePress.Text

namespace PagePress.Markup

open Text Html
open Inspect (Regular isNamed isUnquoted)

/-! ### What attributes mention -/

/-- An attribute mentions a text if it holds it in lower case. -/
def SpelledAttr.mentions (mention : String) (a : SpelledAttr) : Bool := containsText mention (lower a.text)

/-- Some attributes mention what one of them mentions. -/
theorem containsText_attrs {mention : String} (hne : mention.toList ≠ [])
    (hascii : ∀ c ∈ mention.toList, c.toNat < 0x80 ∧ isBlank c = false) {attrs : List SpelledAttr}
    (ha : ∀ a ∈ attrs, a.WellFormed) :
    containsText mention (lower (attrs.flatMap SpelledAttr.text)) = attrs.any (SpelledAttr.mentions mention) := by
  have hfold : ∀ {s : List Char}, containsText mention (lower s) = true ↔ mention.toList <:+: s.flatMap folded :=
    containsText_lower_iff fun c hc => (hascii c hc).1
  rw [Bool.eq_iff_iff, hfold, List.any_eq_true]
  induction attrs with
  | nil => simp [hne]
  | cons a attrs ih =>
    -- What follows an attribute begins with white space, which no mention holds.
    have hhead : ∀ c ∈ ((attrs.flatMap SpelledAttr.text).flatMap folded).head?, c ∉ mention.toList := by
      cases attrs with
      | nil => simp
      | cons a' attrs =>
        obtain ⟨c, y, hbefore⟩ := List.exists_cons_of_ne_nil (ha a' (by simp)).before_ne
        have hc : isBlank c = true := (ha a' (by simp)).before c (by simp [hbefore])
        intro d hd hmem
        have hd : c = d := by
          simpa [SpelledAttr.text, hbefore, folded_of_isBlank hc] using hd
        rw [← hd] at hmem
        rw [(hascii c hmem).2] at hc
        cases hc
    have hone : mention.toList <:+: a.text.flatMap folded ↔ a.mentions mention = true := hfold.symm
    rw [List.flatMap_cons, List.flatMap_append, infix_append_iff hne hhead, hone,
      ih fun x hx => ha x (List.mem_cons_of_mem _ hx)]
    simp

/-! ### Hints -/

/-- The hint, unless some attribute mentions it. -/
def hintFor (mention : String) (hint : Attr) (attrs : List SpelledAttr) : List Attr :=
  if attrs.any (SpelledAttr.mentions mention) then [] else [hint]

/-- The hints that a tag gets. -/
def StartTag.hints (t : StartTag) : List Attr :=
  hintFor "loading=" lazyLoading t.attrs ++ hintFor "decoding=" asyncDecoding t.attrs

/-- An image tag with its hints. -/
def StartTag.hinted (t : StartTag) : StartTag where
  name := "img".toList
  attrs := t.attrs ++ t.hints.map Attr.spell
  tail := t.tail.dropWhile isBlank

/-- An image tag: its attributes are set apart by white space, each value has quotes, and one slash may stand
directly before the end. -/
structure IsImage (t : StartTag) : Prop where
  regular : Regular "img" t
  quoted : ∀ a ∈ t.attrs, isUnquoted a = false
  slash : t.tail.dropWhile isBlank = [] ∨ t.tail.dropWhile isBlank = ['/']

theorem mem_hints {t : StartTag} {a : Attr} (h : a ∈ t.hints) : a = lazyLoading ∨ a = asyncDecoding := by
  have hone : ∀ {mention hint}, a ∈ hintFor mention hint t.attrs → a = hint := fun hm => by
    unfold hintFor at hm
    split at hm
    · cases hm
    · exact List.mem_singleton.1 hm
  exact (List.mem_append.1 h).imp hone hone

theorem facts_of_mem_hints {t : StartTag} {a : Attr} (h : a ∈ t.hints) :
    isAttrName a.name = true ∧ a.value.all ('"' ∉ ·) = true := by
  rcases mem_hints h with rfl | rfl <;> decide

/-- A hint mentions itself, so that it is given only once. -/
theorem hintFor_hinted {mention : String} {hint : Attr} (hself : hint.spell.mentions mention = true)
    {attrs : List SpelledAttr} {hints : List Attr} (hadded : hintFor mention hint attrs ⊆ hints) :
    hintFor mention hint (attrs ++ hints.map Attr.spell) = [] := by
  refine if_pos (?_ : (attrs ++ _).any _ = true)
  rw [List.any_append, Bool.or_eq_true]
  by_cases hm : attrs.any (SpelledAttr.mentions mention) = true
  · exact .inl hm
  · have hone : hintFor mention hint attrs = [hint] := if_neg hm
    exact .inr (List.any_eq_true.2 ⟨hint.spell, List.mem_map_of_mem (hadded (by simp [hone])), hself⟩)

theorem hints_hinted (t : StartTag) : t.hinted.hints = [] := by
  have hload : hintFor "loading=" lazyLoading t.hinted.attrs = [] :=
    hintFor_hinted (by decide) (List.subset_append_left ..)
  have hdecode : hintFor "decoding=" asyncDecoding t.hinted.attrs = [] :=
    hintFor_hinted (by decide) (List.subset_append_right ..)
  rw [StartTag.hints, hload, hdecode, List.append_nil]

/-- A tag with its hints gets no more. -/
theorem StartTag.hinted_hinted (t : StartTag) : t.hinted.hinted = t.hinted := by
  rw [StartTag.hinted, hints_hinted, List.map_nil, List.append_nil]
  simp only [StartTag.hinted, List.dropWhile_idempotent]

/-- A tag gets the hints that it lacks, if what mentions a hint is what has its name. -/
theorem hints_of_named {t : StartTag}
    (h : ∀ n ∈ ["loading", "decoding"], ∀ a ∈ t.attrs, a.mentions (n ++ "=") = isNamed n a.name) :
    t.hints = (if t.attrList.any (fun a => isNamed "loading" a.name) then [] else [lazyLoading]) ++
      if t.attrList.any (fun a => isNamed "decoding" a.name) then [] else [asyncDecoding] := by
  have hany : ∀ n ∈ ["loading", "decoding"], t.attrs.any (SpelledAttr.mentions (n ++ "=")) =
      t.attrList.any fun a => isNamed n a.name := fun n hn => by
    rw [StartTag.attrList, List.any_map, Bool.eq_iff_iff, List.any_eq_true, List.any_eq_true]
    exact exists_congr fun a => and_congr_right fun ha => by rw [h n hn a ha]; rfl
  rw [StartTag.hints, hintFor, hintFor]
  exact congrArg₂ (fun b b' => (if b = true then [] else [lazyLoading]) ++ if b' = true then [] else [asyncDecoding])
    (hany "loading" (by decide)) (hany "decoding" (by decide))

/-! ### The pass on a tag -/

theorem splitSlash_append {s u : List Char} (hs : ∀ c ∈ s.getLast?, isBlank c = false ∧ c ≠ '/')
    (hu : u.dropWhile isBlank = [] ∨ u.dropWhile isBlank = ['/']) :
    Reduce.splitSlash (s ++ u) = (s, u.dropWhile isBlank) := by
  obtain ⟨bs, hbs, hcut⟩ : ∃ bs : List Char, (∀ b ∈ bs, isBlank b = true) ∧ u = bs ++ u.dropWhile isBlank :=
    ⟨u.takeWhile isBlank, fun b hb => List.mem_takeWhile_imp hb, List.takeWhile_append_dropWhile.symm⟩
  have hback : ((bs.reverse ++ s.reverse).dropWhile isBlank).reverse = s := by
    rw [List.dropWhile_append_of_pos fun b hb => hbs b (List.mem_reverse.1 hb), dropWhile_isBlank_eq_self,
      List.reverse_reverse]
    intro c hc
    rw [List.head?_reverse] at hc
    exact (hs c hc).1
  rcases hu with hnil | hslash
  · rw [hnil, List.append_nil] at hcut
    rw [hnil, hcut, Reduce.splitSlash, List.reverse_append]
    split
    · -- The last character is neither a slash of the attributes nor white space.
      rename_i rest hrev
      exfalso
      cases hr : bs.reverse with
      | nil =>
        have hlast : s.getLast? = some '/' := by
          rw [← List.head?_reverse]
          rw [hr, List.nil_append] at hrev
          rw [hrev]
          rfl
        exact (hs '/' hlast).2 rfl
      | cons b r =>
        rw [hr] at hrev
        have hb : isBlank b = true := hbs b (List.mem_reverse.1 (by simp [hr]))
        rw [(List.cons.inj hrev).1] at hb
        exact absurd hb (by decide)
    · rw [hback]
  · rw [hslash] at hcut
    rw [hslash, hcut, Reduce.splitSlash, ← List.append_assoc, List.reverse_append, List.reverse_append]
    show (((bs.reverse ++ s.reverse).dropWhile isBlank).reverse, ['/']) = _
    rw [hback]

theorem facts_of_isAttrChar {c : Char} (h : isAttrChar c = true) : isBlank c = false ∧ c ≠ '/' :=
  ⟨not_blank_of_isAttrChar h, ne_of_isAttrChar h⟩

/-- Neither white space nor a slash ends an attribute without an unquoted value. -/
theorem last_text {a : SpelledAttr} (ha : a.WellFormed) (hquoted : isUnquoted a = false) :
    ∃ u c, a.text = u ++ [c] ∧ isBlank c = false ∧ c ≠ '/' := by
  obtain ⟨before, name, spelling⟩ := a
  cases spelling with
  | bare =>
    rcases List.eq_nil_or_concat name with hname | ⟨n, c, hname⟩
    · exact absurd hname ha.name_ne
    · rw [List.concat_eq_append] at hname
      exact ⟨before ++ n, c, by simp [SpelledAttr.text, SpelledAttr.body, Spelling.text, hname],
        facts_of_isAttrChar (ha.name c (by simp [hname]))⟩
  | unquoted => cases hquoted
  | quoted mark left right v =>
    refine ⟨before ++ (name ++ (left ++ '=' :: (right ++ mark :: v))), mark,
      by simp [SpelledAttr.text, SpelledAttr.body, Spelling.text], ?_⟩
    obtain ⟨-, -, hmark, -⟩ := ha.spelling
    rcases hmark with rfl | rfl <;> decide

namespace IsImage

variable {t : StartTag} (ht : IsImage t)
include ht

theorem length_name : t.name.length = "img".length := by
  have hname : t.name.map Char.toLower = "img".toList := by simpa [isNamed] using ht.regular.name
  rw [← List.length_map (f := Char.toLower), hname]
  rfl

theorem last_attrs : ∀ c ∈ (t.attrs.flatMap SpelledAttr.text).getLast?, isBlank c = false ∧ c ≠ '/' := by
  rcases List.eq_nil_or_concat t.attrs with hnil | ⟨attrs, a, hattrs⟩
  · simp [hnil]
  · rw [List.concat_eq_append] at hattrs
    obtain ⟨u, c, htext, hc⟩ := last_text (ht.regular.attrs a (by simp [hattrs])) (ht.quoted a (by simp [hattrs]))
    intro d hd
    obtain rfl : c = d := by simpa [hattrs, htext] using hd
    exact hc

theorem addHint_attrs (mention : String) (hint : Attr) (hne : mention.toList ≠ [])
    (hascii : ∀ c ∈ mention.toList, c.toNat < 0x80 ∧ isBlank c = false) (attributes : List Char) :
    Reduce.addHint mention (.ofList hint.text) (lower (t.attrs.flatMap SpelledAttr.text)) attributes =
      attributes ++ ((hintFor mention hint t.attrs).map Attr.spell).flatMap SpelledAttr.text := by
  rw [Reduce.addHint, containsText_attrs hne hascii ht.regular.attrs, hintFor]
  split
  · simp
  · simp

/-- What the pass puts between the marks of an image tag. -/
theorem hintedTag_inner : Shield.hintedTag t.inner = t.hinted.inner := by
  have hbody : tagBody "img" (tagText t.inner) = t.attrs.flatMap SpelledAttr.text ++ t.tail := by
    rw [Shield.tagBody_tagText, ← ht.length_name, StartTag.inner, List.drop_left]
  have hload := ht.addHint_attrs "loading=" lazyLoading (by decide) (by decide)
  have hdecode := ht.addHint_attrs "decoding=" asyncDecoding (by decide) (by decide)
  have hload' : (.ofList lazyLoading.text : String) = " loading=\"lazy\"" := by decide
  have hdecode' : (.ofList asyncDecoding.text : String) = " decoding=\"async\"" := by decide
  rw [hload'] at hload
  rw [hdecode'] at hdecode
  simp only [Shield.hintedTag, hbody, splitSlash_append ht.last_attrs ht.slash, hload, hdecode]
  simp [StartTag.hinted, StartTag.hints, StartTag.inner]

theorem mem_inner_hinted {c : Char} (h : c ∈ t.hinted.inner) : c ∈ t.inner ∨ c ≠ '<' ∧ c ≠ '>' ∧ c ≠ '\x00' := by
  rw [← ht.hintedTag_inner] at h
  exact Shield.mem_hintedTag h

theorem quoted_hinted : ∀ a ∈ t.hinted.attrs, isUnquoted a = false := by
  intro a ha
  rcases List.mem_append.1 ha with ha | ha
  · exact ht.quoted a ha
  · obtain ⟨x, hx, rfl⟩ := List.mem_map.1 ha
    rcases mem_hints hx with rfl | rfl <;> rfl

/-- An image tag with its hints is an image tag. -/
theorem hinted : IsImage t.hinted where
  regular := {
    name := (by decide : isNamed "img" "img".toList = true)
    attrs := by
      intro a ha
      rcases List.mem_append.1 ha with ha | ha
      · exact ht.regular.attrs a ha
      · obtain ⟨x, hx, rfl⟩ := List.mem_map.1 ha
        obtain ⟨hname, hvalue⟩ := facts_of_mem_hints hx
        exact Attr.spell_wellFormed hname fun v hv => by simpa [hv] using hvalue
    tail := fun c hc => ht.regular.tail c ((List.dropWhile_suffix _).mem hc)
    slash := fun a ha hunquoted => by
      rw [ht.quoted_hinted a (List.mem_of_getLast? ha)] at hunquoted
      cases hunquoted
    marks := ⟨fun h => (ht.mem_inner_hinted h).elim ht.regular.marks.1 fun h => h.1 rfl,
      fun h => (ht.mem_inner_hinted h).elim ht.regular.marks.2 fun h => h.2.1 rfl⟩ }
  quoted := ht.quoted_hinted
  slash := by
    have h : t.hinted.tail.dropWhile isBlank = t.tail.dropWhile isBlank := List.dropWhile_idempotent ..
    rw [h]
    exact ht.slash

/-- An image tag is taken as a whole and gets its hints. -/
theorem takes_imageTag : Takes Reduce.imageTag? t.text t.hinted.text := by
  refine takes_of_eq opensWith_image.contextFree (by simp [StartTag.text]) fun v => ?_
  obtain ⟨k, hk, htext⟩ := Inspect.openTag?_text (by decide) ht.regular v
  refine ⟨k, ?_, htext⟩
  have hvalue : t.hinted.text = tagText (Shield.hintedTag t.inner) := congrArg tagText ht.hintedTag_inner.symm
  rw [hvalue, Reduce.imageTag?, hk, Option.map_some, htext]
  simp [Shield.hintedTag, StartTag.text, tagText]

end IsImage

theorem StartTag.attrList_hinted (t : StartTag) : t.hinted.attrList = t.attrList ++ t.hints := by
  simp [attrList, hinted, Function.comp_def]

end PagePress.Markup
