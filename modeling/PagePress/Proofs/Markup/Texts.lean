import PagePress.Proofs.Markup.Edit
import PagePress.Proofs.Markup.Sealed

/-!
Changes of all texts in a document: the values of tags, what is inside of scripts, stylesheets and
comments, and the texts between tags. A change that leaves the marks of tags alone and treats the
parts of a text apart may as well be made on the text of the whole document (`Piecewise.text`).
-/

namespace PagePress.Markup

open Text Html

/-- A change of texts that can be made part by part. It may look across the end of a part, but only
at a carriage return with a line feed behind it, and it may bring in line feeds. -/
structure Piecewise (f : List Char → List Char) : Prop where
  append : ∀ u v, u.getLast? ≠ some '\r' ∨ v.head? ≠ some '\n' → f (u ++ v) = f u ++ f v
  fixed : ∀ s, '\r' ∉ s → '\x00' ∉ s → f s = s
  mem : ∀ s, ∀ c ∈ f s, c ∈ s ∨ c = '\n'

/-! ### Changed documents -/

def Element.mapText (f : List Char → List Char) (e : Element) : Element :=
  ⟨e.name, e.attrs.map (Attr.mapValue f), f e.content⟩

def Tag.mapText (f : List Char → List Char) : Tag Element → Tag Element
  | declaration s => declaration s
  | comment s => comment (f s)
  | opening name attrs => opening name (attrs.map (Attr.mapValue f))
  | closing name => closing name
  | sealed e => sealed (e.mapText f)

/-- A document with all its texts changed. -/
def mapText (f : List Char → List Char) (d : List (Span Element)) : List (Span Element) :=
  d.map fun s => ⟨s.tag.mapText f, f s.after⟩

theorem Tag.mapText_ne_comment {f : List Char → List Char} {t : Tag Element} (h : ∀ s, t ≠ .comment s) :
    ∀ s, t.mapText f ≠ .comment s := by
  intro s hs
  cases t with
  | comment u => exact h u rfl
  | _ => cases hs

theorem tags_mapText (f : List Char → List Char) (d : List (Span Element)) :
    (mapText f d).map Span.tag = (d.map Span.tag).map (Tag.mapText f) := by
  simp [mapText]

theorem attrsOf_mapText (f : List Char → List Char) (n : List Char) (d : List (Span Element)) :
    attrsOf n (mapText f d) = (attrsOf n d).map fun attrs => attrs.map (Attr.mapValue f) := by
  have htag : ∀ t : Tag Element,
      (t.mapText f).attrsOf? n = (t.attrsOf? n).map fun attrs => attrs.map (Attr.mapValue f) := by
    intro t
    cases t with
    | opening m attrs => by_cases h : m = n <;> simp [Tag.mapText, Tag.attrsOf?, h]
    | _ => rfl
  simp only [attrsOf, mapText, List.filterMap_map, List.map_filterMap, Function.comp_def, htag]

theorem head?_text {d : List (Span Element)} : ∀ c ∈ (text d).head?, c = '<' := by
  have htag : ∀ t : Tag Element, ∃ u, t.text = '<' :: u := by
    intro t
    cases t <;> exact ⟨_, rfl⟩
  cases d with
  | nil => simp
  | cons s d =>
    obtain ⟨u, hu⟩ := htag s.tag
    simp [hu]

/-! ### Changed texts -/

namespace Piecewise

variable {f : List Char → List Char} (hf : Piecewise f)
include hf

theorem isTextChar {s : List Char} (hs : ∀ c ∈ s, isTextChar c = true) : ∀ c ∈ f s, isTextChar c = true := by
  intro c hc
  rcases hf.mem s c hc with hc | rfl
  · exact hs c hc
  · decide

theorem isValueChar {s : List Char} (hs : ∀ c ∈ s, isValueChar c = true) :
    ∀ c ∈ f s, isValueChar c = true := by
  intro c hc
  rcases hf.mem s c hc with hc | rfl
  · exact hs c hc
  · decide

theorem not_mem {s : List Char} {c : Char} (h : c ∉ s) (hc : c ≠ '\n') : c ∉ f s :=
  fun hm => (hf.mem s c hm).elim h hc

/-- A word at the front without carriage returns and NUL characters stays. -/
theorem word_append {w : List Char} (hr : '\r' ∉ w) (hn : '\x00' ∉ w) (v : List Char) :
    f (w ++ v) = w ++ f v := by
  rw [hf.append w v (.inl fun h => hr (List.mem_of_getLast? h)), hf.fixed w hr hn]

theorem append_cons (u : List Char) {c : Char} (hc : c ≠ '\n') (v : List Char) :
    f (u ++ c :: v) = f u ++ f (c :: v) :=
  hf.append u _ (.inr (by simpa using hc))

theorem name_append {n : List Char} (hn : isName n = true) (v : List Char) : f (n ++ v) = n ++ f v :=
  hf.word_append (fun hm => absurd (all_of_isName hn _ hm) (by decide))
    (fun hm => absurd (all_of_isName hn _ hm) (by decide)) v

theorem attr_append {a : Attr} (h : a.WellFormed) (v : List Char) :
    f (a.text ++ v) = (a.mapValue f).text ++ f v := by
  have hname : ∀ w, f (' ' :: a.name ++ w) = ' ' :: a.name ++ f w := by
    have hne : ∀ c ∈ ' ' :: a.name, c ≠ '\r' ∧ c ≠ '\x00' := by
      intro c hc
      rcases List.mem_cons.1 hc with rfl | hc
      · decide
      · rcases mem_name_of_isAttrName h.name c hc with hc | rfl
        · constructor <;> rintro rfl <;> exact absurd hc (by decide)
        · decide
    exact hf.word_append (fun hm => (hne _ hm).1 rfl) (fun hm => (hne _ hm).2 rfl)
  rw [Attr.text, Attr.text, Attr.mapValue]
  cases a.value with
  | none => simpa using hname v
  | some u =>
    have hmark := hf.word_append (w := ['=', '"']) (by decide) (by decide)
    have hclose := hf.word_append (w := ['"']) (by decide) (by decide)
    simp only [List.cons_append, List.nil_append, List.append_assoc] at hname hmark hclose ⊢
    rw [hname, hmark, hf.append_cons u (by decide), hclose]
    simp

theorem attrs_append {attrs : List Attr} (h : ∀ a ∈ attrs, a.WellFormed) (v : List Char) :
    f (attrs.flatMap Attr.text ++ v) = (attrs.map (Attr.mapValue f)).flatMap Attr.text ++ f v := by
  induction attrs with
  | nil => rfl
  | cons a attrs ih =>
    rw [List.flatMap_cons, List.append_assoc, hf.attr_append (h a (by simp)),
      ih fun x hx => h x (by simp [hx]), List.map_cons, List.flatMap_cons, List.append_assoc]

theorem openingText_append {n : List Char} (hn : isName n = true) {attrs : List Attr}
    (h : ∀ a ∈ attrs, a.WellFormed) (v : List Char) :
    f (openingText n attrs ++ v) = openingText n (attrs.map (Attr.mapValue f)) ++ f v := by
  have hopen := hf.word_append (w := ['<']) (by decide) (by decide)
  have hclose := hf.word_append (w := ['>']) (by decide) (by decide)
  simp only [List.cons_append, List.nil_append] at hopen hclose
  simp only [openingText, List.cons_append, List.nil_append, List.append_assoc]
  rw [hopen, hf.name_append hn, hf.attrs_append h, hclose]

theorem closingText_append {n : List Char} (hn : isName n = true) (v : List Char) :
    f (closingText n ++ v) = closingText n ++ f v := by
  have hopen := hf.word_append (w := ['<', '/']) (by decide) (by decide)
  have hclose := hf.word_append (w := ['>']) (by decide) (by decide)
  simp only [List.cons_append, List.nil_append] at hopen hclose
  simp only [closingText, List.cons_append, List.nil_append, List.append_assoc]
  rw [hopen, hf.name_append hn, hclose]

theorem element_append {e : Element} (he : e.WellFormed) (v : List Char) :
    f (Written.text e ++ v) = Written.text (e.mapText f) ++ f v := by
  have hclosing : ∃ w, closingText e.name ++ v = '<' :: w := ⟨_, rfl⟩
  obtain ⟨w, hw⟩ := hclosing
  rw [Element.text_append, Element.text_append, hf.openingText_append he.isName he.attrs, hw,
    hf.append_cons e.content (by decide), ← hw, hf.closingText_append he.isName]
  rfl

theorem tag_append {t : Tag Element} (ht : t.WellFormed) (v : List Char) :
    f (t.text ++ v) = (t.mapText f).text ++ f v := by
  cases t with
  | declaration s =>
    obtain rfl := ht
    exact hf.word_append (by decide) (by decide) v
  | comment s =>
    have hopen := hf.word_append (w := ['<', '!', '-', '-']) (by decide) (by decide)
    have hclose := hf.word_append (w := ['-', '-', '>']) (by decide) (by decide)
    simp only [List.cons_append, List.nil_append] at hopen hclose
    simp only [Tag.text, Tag.mapText, List.cons_append, List.nil_append, List.append_assoc]
    rw [hopen, hf.append_cons s (by decide), hclose]
  | opening n attrs => exact hf.openingText_append ht.1 ht.2.2 v
  | closing n => exact hf.closingText_append ht v
  | sealed e => exact hf.element_append ht v

/-- The change of all texts in a document is the change of its text. -/
theorem text {d : List (Span Element)} (hd : WellFormed d) :
    f (Markup.text d) = Markup.text (mapText f d) := by
  induction d with
  | nil => exact hf.fixed [] (by simp) (by simp)
  | cons s d ih =>
    obtain ⟨hs, hd⟩ := wellFormed_cons.1 hd
    have hhead : (Markup.text d).head? ≠ some '\n' := fun h =>
      absurd (head?_text _ h) (by decide)
    rw [text_cons, hf.tag_append hs.tag, hf.append _ _ (.inr hhead), ih hd]
    simp [mapText]

theorem mapValue_wellFormed {attrs : List Attr} (h : ∀ a ∈ attrs, a.WellFormed) :
    ∀ a ∈ attrs.map (Attr.mapValue f), a.WellFormed := by
  intro a ha
  obtain ⟨b, hb, rfl⟩ := List.mem_map.1 ha
  exact Edit.mapValue_wellFormed (fun _ hv => hf.isValueChar hv) (h b hb)

theorem mapText_wellFormed {d : List (Span Element)} (hd : WellFormed d) : WellFormed (mapText f d) := by
  intro s hs
  obtain ⟨⟨t, a⟩, hm, rfl⟩ := List.mem_map.1 hs
  have ht := (hd _ hm).tag
  refine ⟨?_, hf.isTextChar (hd _ hm).after⟩
  cases t with
  | comment u =>
    intro c hc
    rcases hf.mem u c hc with hc | rfl
    · exact ht c hc
    · decide
  | opening n attrs => exact ⟨ht.1, ht.2.1, hf.mapValue_wellFormed ht.2.2⟩
  | sealed e =>
    have ht : e.WellFormed := ht
    exact ⟨ht.name, hf.mapValue_wellFormed ht.attrs, hf.not_mem ht.content (by decide)⟩
  | _ => exact ht

end Piecewise

end PagePress.Markup
