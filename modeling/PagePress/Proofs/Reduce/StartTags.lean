import PagePress.Proofs.Markup.Reader
import PagePress.Proofs.Shield.Tags

/-!
Start tags without empty attributes. The reader takes a start tag for its name and its attributes
however they are spelt (`StartTag.read_text`), and the pass leaves a start tag in which the attributes
with an empty value are left out, `alt` apart (`StartTag.dropEmptyAttributes_text`). The pass does not
know where a value ends, though: an empty attribute that a value only mentions goes from the value
(`dropEmptyAttributes_startTag`).
-/

namespace PagePress.Html.Shield

open Text

theorem IsElement.two_le_count {u : List Char} (h : IsElement u) : 2 ≤ u.count '<' := by
  obtain ⟨_, _, r, _, rfl⟩ := h
  simp only [RawElement.text, RawElement.opening, RawElement.closing, openingTag, closingTag,
    List.count_append, List.count_cons_self]
  omega

/-- A text with one mark of a tag holds no element. -/
theorem parts_tagText {s : List Char} (hs : '<' ∉ s) (hn : '\x00' ∉ s) :
    parts (tagText s) = (tagText s).map .plain := by
  have hnul : '\x00' ∉ tagText s := by
    simpa [tagText] using hn
  rw [parts, Markup.dropNul_of_not_mem hnul, segments]
  refine segmentsFrom_of_none_all (fun b u hu => ?_) none
  by_contra hne
  obtain ⟨⟨a, k⟩, hk⟩ := Option.ne_none_iff_exists'.1 hne
  have htwo := (isElement_of_shielded? hk).two_le_count
  have hprefix : k.text.count '<' ≤ u.count '<' :=
    (List.IsPrefix.sublist ⟨k.rest, k.append_eq⟩).count_le _
  have hone : (tagText s).count '<' = 1 := by
    rw [tagText, List.count_cons_self, List.count_eq_zero.2 (by simpa using hs)]
  have := hu.sublist.count_le '<'
  omega

end PagePress.Html.Shield

namespace PagePress.Markup

open Text Html

/-! ### Start tags -/

/-- A start tag as it is spelt: its name, its attributes, and what stands before its end. -/
structure StartTag where
  name : List Char
  attrs : List SpelledAttr
  tail : List Char

/-- A character of the name of an element behind its first letter. -/
def isTagChar (c : Char) : Bool := !isBlank c && c != '/' && c != '>'

namespace StartTag

/-- What stands between the marks of a start tag. -/
def inner (t : StartTag) : List Char := t.name ++ (t.attrs.flatMap SpelledAttr.text ++ t.tail)

def text (t : StartTag) : List Char := tagText t.inner

/-- The attributes that are spelt in a start tag, in their order. -/
def attrList (t : StartTag) : List Attr := t.attrs.map SpelledAttr.attr

structure WellFormed (t : StartTag) : Prop where
  name : ∃ c n, t.name = c :: n ∧ c.isAlpha = true ∧ ∀ d ∈ n, isTagChar d = true
  attrs : ∀ a ∈ t.attrs, a.WellFormed
  tail : t.tail = [] ∨ ∃ c u, t.tail = c :: u ∧ isBlank c = true ∧ ∀ d ∈ u, isGapChar d = true
  marks : '<' ∉ t.inner ∧ '>' ∉ t.inner

end StartTag

/-- Reads a text that is one start tag: its name and its attributes. -/
def readStartTag? (s : List Char) : Option (List Char × List Attr) := do
  let mark ← Cut.char? (· == '<') s
  let letter ← Cut.char? Char.isAlpha mark.rest
  let rest := Cut.span isTagChar letter.rest
  let (attrs, k) ← attrs? rest.rest
  if k.rest = [] then return (letter.text ++ rest.text, attrs) else none

/-- A start tag is read as it is spelt, if its attributes are taken up to its end. -/
theorem readStartTag?_of_attrs {t : StartTag}
    (ht : ∃ c n, t.name = c :: n ∧ c.isAlpha = true ∧ ∀ d ∈ n, isTagChar d = true)
    (hstop : ∀ d x, t.attrs.flatMap SpelledAttr.text ++ (t.tail ++ ['>']) = d :: x → isTagChar d = false)
    (hattrs : ∀ {s : List Char}, s = t.attrs.flatMap SpelledAttr.text ++ (t.tail ++ ['>']) →
      ∃ k : Cut s, attrs? s = some (t.attrList, k) ∧ k.rest = []) :
    readStartTag? t.text = some (t.name, t.attrList) := by
  obtain ⟨c, n, hname, hc, hn⟩ := ht
  have htext : t.text = '<' :: (c :: (n ++ (t.attrs.flatMap SpelledAttr.text ++ (t.tail ++ ['>'])))) := by
    simp [StartTag.text, tagText, StartTag.inner, hname]
  obtain ⟨k1, h1, -, r1⟩ := Cut.char?_gives (p := (· == '<')) htext (by decide)
  obtain ⟨k2, h2, t2, r2⟩ := Cut.char?_gives (p := Char.isAlpha) r1 hc
  have hspan : k2.rest.takeWhile isTagChar = n ∧
      k2.rest.dropWhile isTagChar = t.attrs.flatMap SpelledAttr.text ++ (t.tail ++ ['>']) := by
    rw [r2, List.takeWhile_append_of_pos hn, List.dropWhile_append_of_pos hn]
    cases hrest : t.attrs.flatMap SpelledAttr.text ++ (t.tail ++ ['>']) with
    | nil => simp
    | cons d x => simp [hstop d x hrest]
  obtain ⟨k3, h3, r3⟩ := hattrs (s := (Cut.span isTagChar k2.rest).rest) (by rw [Cut.span_rest, hspan.2])
  simp only [readStartTag?, h1, h2, h3, r3, t2, Option.bind_eq_bind, Option.bind_some, if_true, Cut.span_text,
    hspan.1]
  simp [hname]

namespace StartTag.WellFormed

variable {t : StartTag} (ht : t.WellFormed)
include ht

theorem isGapChar_tail : ∀ c ∈ t.tail, isGapChar c = true := by
  rcases ht.tail with h | ⟨c, u, h, hc, hu⟩
  · simp [h]
  · rw [h]
    intro d hd
    rcases List.mem_cons.1 hd with rfl | hd
    · rw [isGapChar, hc, Bool.true_or]
    · exact hu d hd

theorem endsAttr_tail (v : List Char) : EndsAttr (t.tail ++ '>' :: v) := by
  rcases ht.tail with h | ⟨c, u, h, hc, hu⟩
  · rw [h]
    exact .mark v
  · have hblanks : ∀ d ∈ c :: u.takeWhile isBlank, isBlank d = true := by
      intro d hd
      rcases List.mem_cons.1 hd with rfl | hd
      · exact hc
      · exact List.mem_takeWhile_imp hd
    have hcut : t.tail = c :: u.takeWhile isBlank ++ u.dropWhile isBlank := by
      rw [h, List.cons_append, List.takeWhile_append_dropWhile]
    cases hrest : u.dropWhile isBlank with
    | nil =>
      rw [hcut, hrest, List.append_nil]
      exact .space (by simp) hblanks (by simp) v
    | cons d x =>
      have hd : isGapChar d = true := hu d ((List.dropWhile_suffix _).mem (by rw [hrest]; simp))
      have hblank : isBlank d = false := by
        have := List.head?_dropWhile_not isBlank u
        rw [hrest] at this
        simpa using this
      have hslash : d = '/' := by simpa [isGapChar, hblank] using hd
      rw [hcut, hrest, List.append_assoc]
      exact .space (by simp) hblanks (by simp [hslash]) (x ++ '>' :: v)

/-- The reader finds the name and the attributes of a start tag. -/
theorem read_text : readStartTag? t.text = some (t.name, t.attrList) := by
  refine readStartTag?_of_attrs ht.name (fun d x hd => ?_) fun hs => ?_
  · obtain ⟨e, y, he, hblank⟩ := (endsAttr_attrs ht.attrs (ht.endsAttr_tail [])).head
    rw [he] at hd
    obtain ⟨rfl, -⟩ := List.cons.inj hd
    rcases hblank with hblank | rfl
    · simp [isTagChar, hblank]
    · decide
  · obtain ⟨k, hk, -, hr⟩ := attrs?_spelled ht.attrs ht.isGapChar_tail (ht.endsAttr_tail []) hs
    exact ⟨k, hk, hr⟩

end StartTag.WellFormed

/-! ### The pass -/

theorem SpelledAttr.WellFormed.mapValue_cleanse {a : SpelledAttr} (ha : a.WellFormed) :
    (a.mapValue cleanse).WellFormed where
  before_ne := ha.before_ne
  before := ha.before
  name_ne := ha.name_ne
  name := ha.name
  spelling := by
    obtain ⟨before, name, spelling⟩ := a
    have hs := ha.spelling
    cases spelling with
    | bare => trivial
    | unquoted left right v =>
      obtain ⟨hleft, hright, hne, hv⟩ := hs
      rw [SpelledAttr.mapValue, Spelling.mapValue, cleanse_of_solid fun c hc => (hv c hc).1]
      exact ⟨hleft, hright, hne, hv⟩
    | quoted mark left right v =>
      obtain ⟨hleft, hright, hmark, hv⟩ := hs
      exact ⟨hleft, hright, hmark, fun h => hv (mem_cleanse h)⟩

/-- A start tag after the pass. -/
def StartTag.emptied (t : StartTag) : StartTag := { t with attrs := t.attrs.filterMap SpelledAttr.kept? }

namespace StartTag.WellFormed

variable {t : StartTag} (ht : t.WellFormed)
include ht

theorem cleanse_inner : cleanse t.inner = t.emptied.inner := by
  have hsolid : ∀ c ∈ t.name, isBlank c = false := by
    obtain ⟨c, n, hname, hc, hn⟩ := ht.name
    rw [hname]
    intro d hd
    rcases List.mem_cons.1 hd with rfl | hd
    · have hletters : ∀ n < 128, (Char.ofNat n).isAlpha = true → isBlank (.ofNat n) = false := by decide
      exact of_ascii (p := fun d => d.isAlpha = true → isBlank d = false) hletters
        (toNat_of_isAlphanum (by simp [Char.isAlphanum, hc])) hc
    · have := hn d hd
      simp only [isTagChar, Bool.and_eq_true, Bool.not_eq_true'] at this
      exact this.1.1
  have htail : replaceAll Reduce.emptyAttribute? (t.tail ++ ['>']) = t.tail ++ ['>'] := by
    refine cleanse_of_steady fun w hw => ?_
    have hequals : '=' ∈ t.tail ++ ['>'] := hw.mem (by simp)
    rw [List.mem_append] at hequals
    rcases hequals with h | h
    · exact absurd (ht.isGapChar_tail _ h) (by decide)
    · exact absurd h (by decide)
  have hmark : cleanse (t.inner ++ ['>']) = t.emptied.inner ++ ['>'] := by
    have hinner : t.inner ++ ['>'] = t.name ++ (t.attrs.flatMap SpelledAttr.text ++ (t.tail ++ ['>'])) := by
      simp [StartTag.inner]
    rw [hinner, cleanse, replaceAll_solid hsolid, replaceAll_spelledAttrs ht.attrs (ht.endsAttr_tail []), htail]
    simp [StartTag.inner, StartTag.emptied]
  rw [Shield.cleanse_mark] at hmark
  exact List.append_cancel_right hmark

theorem dropEmptyAttributes_text (hn : '\x00' ∉ t.inner) : Reduce.dropEmptyAttributes t.text = t.emptied.text := by
  have hparts : Shield.parts t.text = t.text.map .plain := Shield.parts_tagText ht.marks.1 hn
  have hscan : replaceAll Reduce.startTag? t.text = t.emptied.text := by
    have htag := (Shield.editsTags_startTag (P := fun _ => True)).tag t.inner ht.marks.1 ht.marks.2 trivial []
    obtain ⟨c, n, hname, hc, -⟩ := ht.name
    have hletter : t.inner.head?.any Char.isAlpha = true := by
      simp [StartTag.inner, hname, hc]
    rw [Shield.emptied, if_pos hletter, ht.cleanse_inner, List.append_nil, replaceAll_nil, List.append_nil] at htag
    exact htag
  rw [Reduce.dropEmptyAttributes, Shield.around_eq (q := t.emptied.text.map .plain)]
  · exact Shield.source_map_plain _
  · rw [hparts, Shield.number_map_plain, Shield.slots_map_plain, Shield.slots_map_plain, hscan]
  · intro x hx
    obtain ⟨c, hc, rfl⟩ := List.mem_map.1 hx
    refine .inr ⟨c, rfl, ?_⟩
    rintro rfl
    rw [StartTag.text, mem_tagText, ← ht.cleanse_inner] at hc
    rcases hc with hc | hc | hc
    · exact absurd hc (by decide)
    · exact hn (mem_cleanse hc)
    · exact absurd hc (by decide)

theorem emptied : t.emptied.WellFormed where
  name := ht.name
  attrs a ha := by
    obtain ⟨b, hb, hkept⟩ := List.mem_filterMap.1 ha
    rw [SpelledAttr.kept?] at hkept
    split at hkept
    · cases hkept
    · exact Option.some.inj hkept ▸ (ht.attrs b hb).mapValue_cleanse
  tail := ht.tail
  marks := by
    rw [← ht.cleanse_inner]
    exact ⟨fun h => ht.marks.1 (mem_cleanse h), fun h => ht.marks.2 (mem_cleanse h)⟩

end StartTag.WellFormed

theorem StartTag.attrList_emptied (t : StartTag) :
    t.emptied.attrList = (t.attrList.filter (!·.isDropped)).map (Attr.mapValue cleanse) := by
  obtain ⟨name, attrs, tail⟩ := t
  induction attrs with
  | nil => rfl
  | cons a attrs ih =>
    simp only [emptied, attrList, List.map_cons, List.filterMap_cons, List.filter_cons, SpelledAttr.kept?] at ih ⊢
    by_cases ha : a.attr.isDropped = true
    · simpa [ha] using ih
    · have hmap : (a.mapValue cleanse).attr = a.attr.mapValue cleanse := a.attr_mapValue cleanse
      simpa [ha, hmap] using ih

/-- A value mentions an attribute with an empty value. -/
def MentionsEmpty (v : List Char) : Prop := ∃ u c w, v = u ++ c :: w ∧ isBlank c = true ∧ BeginsEmpty w

theorem cleanse_of_not_mentionsEmpty {v : List Char} (h : ¬ MentionsEmpty v) : cleanse v = v := by
  refine replaceAll_eq_self contextFree_emptyAttribute fun u hu => ?_
  by_contra hne
  obtain ⟨⟨a, k⟩, hk⟩ := Option.ne_none_iff_exists'.1 hne
  obtain ⟨c, w, x, hcut, hblank, hempty⟩ := exists_of_emptyAttribute? hk
  obtain ⟨y, hy⟩ := hu
  obtain ⟨w', d, hlast⟩ := (List.eq_nil_or_concat (c :: w)).resolve_left (by simp)
  rw [hlast] at hcut hblank
  exact h ⟨y ++ w', d, x, by rw [← hy, hcut]; simp, hblank d (by simp), hempty⟩

/-- The pass leaves out the attributes of a start tag whose value is empty and whose name it knows,
`alt` apart. The others keep their names and their order, and a value stays as it is unless it mentions
an attribute with an empty value. -/
theorem dropEmptyAttributes_startTag {t : StartTag} (ht : t.WellFormed) (hn : '\x00' ∉ t.inner) :
    readStartTag? t.text = some (t.name, t.attrList) ∧
      readStartTag? (Reduce.dropEmptyAttributes t.text) =
        some (t.name, (t.attrList.filter (!·.isDropped)).map (Attr.mapValue cleanse)) ∧
      ∀ a ∈ t.attrList, (∀ v, a.value = some v → ¬ MentionsEmpty v) → a.mapValue cleanse = a := by
  refine ⟨ht.read_text, ?_, fun a _ hvalue => ?_⟩
  · rw [ht.dropEmptyAttributes_text hn, ht.emptied.read_text, t.attrList_emptied]
    rfl
  · obtain ⟨n, v⟩ := a
    cases v with
    | none => rfl
    | some v => simp [Attr.mapValue, cleanse_of_not_mentionsEmpty (hvalue v rfl)]

/-- A start tag with a value that mentions an empty attribute, and with attributes of all kinds. -/
def sampleTag : StartTag where
  name := "a".toList
  attrs := [
    ⟨" ".toList, "title".toList, .quoted '"' [] [] "x y='' z".toList⟩,
    ⟨"\n ".toList, "class".toList, .quoted '"' " ".toList [] []⟩,
    ⟨" ".toList, "Alt".toList, .quoted '\'' [] [] []⟩,
    ⟨" ".toList, "hidden".toList, .bare⟩,
    ⟨" ".toList, "href".toList, .unquoted [] [] "u".toList⟩]
  tail := []

theorem sampleTag_wellFormed : sampleTag.WellFormed where
  name := ⟨'a', [], rfl, by decide, by simp⟩
  attrs := by
    intro a ha
    simp only [sampleTag, List.mem_cons, List.not_mem_nil, or_false] at ha
    rcases ha with rfl | rfl | rfl | rfl | rfl
    all_goals exact ⟨by decide, by decide, by decide, by decide, by simp [Spelling.WellFormed] <;> decide⟩
  tail := .inl rfl
  marks := by decide

/-- The mentioned attribute goes from the title. -/
theorem dropEmptyAttributes_sampleTag : sampleTag.WellFormed ∧ '\x00' ∉ sampleTag.inner ∧
    readStartTag? sampleTag.text = some (sampleTag.name, sampleTag.attrList) ∧
      readStartTag? (Reduce.dropEmptyAttributes sampleTag.text) = some ("a".toList, [
        ⟨"title".toList, some "x z".toList⟩, ⟨"Alt".toList, some []⟩, ⟨"hidden".toList, none⟩,
        ⟨"href".toList, some "u".toList⟩]) := by
  have hnul : '\x00' ∉ sampleTag.inner := by decide
  obtain ⟨hread, hdropped, -⟩ := dropEmptyAttributes_startTag sampleTag_wellFormed hnul
  exact ⟨sampleTag_wellFormed, hnul, hread, hdropped.trans (by decide +kernel)⟩

end PagePress.Markup
