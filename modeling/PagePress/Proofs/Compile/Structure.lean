import Mathlib.Data.List.Basic
import Mathlib.Data.List.Forall2
import PagePress.Proofs.Markup.Reader
import PagePress.Proofs.Render.Values

/-!
The reduction as a change of the document. What a reader makes of a reduced document is the
document before, apart from comments, with tidied values and texts (`structure_of_compile`). It
takes that no raw value holds a quotation mark, since the pass that drops empty attributes looks
for them inside values too.
-/

namespace PagePress.Markup

open Text Html Render Document

/-! ### Correspondence -/

/-- An attribute with its value tidied, if anything is left of that; an alternative text may be empty. -/
def Attr.tidied? (a : Attr) : Option Attr :=
  if a.name ≠ "alt".toList ∧ a.value.map tidy = some [] then none else some (a.mapValue tidy)

/-- What becomes of a tag other than a comment: its attributes are tidied, images may gain hints.
Of scripts and stylesheets only the tags are looked at. -/
inductive TagsMatch : Tag Element → Tag Element → Prop
  | declaration (s : List Char) : TagsMatch (.declaration s) (.declaration s)
  | opening (n : List Char) (attrs hints : List Attr)
      (hsub : List.Sublist hints [lazyLoading, asyncDecoding]) (himg : hints ≠ [] → n = "img".toList) :
      TagsMatch (.opening n attrs) (.opening n (attrs.filterMap Attr.tidied? ++ hints))
  | closing (n : List Char) : TagsMatch (.closing n) (.closing n)
  | sealed (n : List Char) (attrs : List Attr) (s s' : List Char) :
      TagsMatch (.sealed ⟨n, attrs, s⟩) (.sealed ⟨n, attrs.map (Attr.mapValue Shield.dropNul), s'⟩)

/-- What becomes of a tag and of the text after it: the text is tidied, and goes if it is blank. -/
structure SpansMatch (s s' : Span Element) : Prop where
  tag : TagsMatch s.tag s'.tag
  after : s'.after = unlessBlank (tidy s.after)

/-! ### Tags -/

theorem Attr.reduced?_of_steady {a : Attr} (h : ∀ v, a.value = some v → Steady (tidy v)) :
    a.reduced? = a.tidied? := by
  obtain ⟨n, v⟩ := a
  cases v with
  | none => simp [Attr.reduced?, Attr.tidied?, Attr.mapValue, Attr.emptied?]
  | some v =>
    by_cases hv : tidy v = []
    · by_cases hn : n = "alt".toList
      · simp only [reduced?, tidied?, mapValue, emptied?, Option.map_some, hv, if_pos hn]
        rw [if_neg fun h => h.1 hn]
      · rw [Attr.reduced?_empty hn hv]
        simp only [tidied?, Option.map_some, hv]
        rw [if_pos ⟨hn, trivial⟩]
    · obtain ⟨c, s, hs⟩ := List.exists_cons_of_ne_nil hv
      have hclean : cleanse (c :: s) = c :: s := hs ▸ cleanse_of_steady (h v rfl)
      simp only [reduced?, tidied?, mapValue, emptied?, Option.map_some, hs, hclean]
      rw [if_neg]
      rintro ⟨-, h⟩
      cases h

theorem tagsMatch_reduced {t : Tag Element} (hcomment : ∀ s, t ≠ .comment s)
    (hcalm : ∀ n attrs, t = .opening n attrs → ∃ as : List Attribute, attrs = as.map attrOf ∧
      ∀ a ∈ as, Calm a) : TagsMatch t t.reduced := by
  cases t with
  | declaration s => exact .declaration s
  | comment s => exact absurd rfl (hcomment s)
  | closing n => exact .closing n
  | sealed e =>
    have he : e.reduced = ⟨e.name, e.attrs.map (Attr.mapValue Shield.dropNul), e.reduced.content⟩ := by
      rw [← e.reduced_name, ← e.reduced_attrs]
    rw [Tag.reduced, he]
    exact .sealed e.name e.attrs e.content e.reduced.content
  | opening n attrs =>
    obtain ⟨as, rfl, has⟩ := hcalm n attrs rfl
    have htidied : (as.map attrOf).filterMap Attr.reduced? = (as.map attrOf).filterMap Attr.tidied? := by
      refine List.filterMap_congr fun a ha => ?_
      obtain ⟨b, hb, rfl⟩ := List.mem_map.1 ha
      exact Attr.reduced?_of_steady (has b hb)
    obtain ⟨hints, hhints, hsub, himg⟩ := exists_hinted n ((as.map attrOf).filterMap Attr.tidied?)
    rw [Tag.reduced, htidied, hhints]
    exact .opening n _ hints hsub himg

/-! ### Documents -/

/-- The tags and the texts that a reader finds in a document outside its comments. -/
def markup (html : List Char) : List (Span Element) := dropComments (read html)

/-- Each tag of a document without comments corresponds to one of the reduced document. -/
theorem spansMatch_reduced {ns : List Node} {d : List (Span Element)}
    (hd : ∀ n attrs, .opening n attrs ∈ d.map Span.tag → .tag (.opening n attrs) ∈ treeParts ns)
    (hcalm : EveryAttrs Calm ns) : List.Forall₂ SpansMatch (dropComments d) (reduced d) := by
  rw [reduced_eq, List.forall₂_map_right_iff, List.forall₂_same]
  intro s hs
  obtain ⟨⟨s', hs', htag⟩, hcomment, -⟩ := mem_dropComments hs
  refine ⟨tagsMatch_reduced hcomment fun n attrs ht => ?_, rfl⟩
  refine mem_treeParts_attrs ns hcalm n attrs (hd n attrs (List.mem_map.2 ⟨s', hs', ?_⟩))
  rw [htag, ht]

/-- The raw values of a page hold neither marks of a tag nor quotation marks. -/
structure PlainValues (p : Page) : Prop where
  sections : ∀ s ∈ p.sections, ∀ v ∈ rawValues s.block, ∀ c ∈ v.toList, c ∉ ['<', '>', '"', '\'']
  primary : ∀ c ∈ p.theme.primaryColor.toList, c ∉ ['<', '>', '"', '\'']
  secondary : ∀ c ∈ p.theme.secondaryColor.toList, c ∉ ['<', '>', '"', '\'']

theorem isValue_of_plain {v : List Char} (h : ∀ c ∈ v, c ∉ ['<', '>', '"', '\'']) : IsValue v := by
  intro c hc
  have := h c hc
  simp only [List.mem_cons, List.not_mem_nil, or_false, not_or] at this
  simp [isValueChar, isTextChar, this]

theorem PlainValues.safeValues {p : Page} (h : PlainValues p) : SafeValues p where
  sections s hs v hv := isValue_of_plain (h.sections s hs v hv)
  primary := isValue_of_plain h.primary
  secondary := isValue_of_plain h.secondary

theorem PlainValues.isUnquoted {p : Page} (h : PlainValues p) :
    ∀ s ∈ p.sections, ∀ v ∈ rawValues s.block, isUnquoted v = true := by
  intro s hs v hv
  rw [isUnquoted_iff]
  intro c hc
  have := h.sections s hs v hv c hc
  simp only [List.mem_cons, List.not_mem_nil, or_false, not_or] at this
  exact this.2.2

theorem plainValues_samplePage : PlainValues samplePage where
  sections := by decide
  primary := by decide
  secondary := by decide

/-- A reader loses nothing of a document, reduced or not, and finds the same tags in both: those of
the reduced one are tidied, as are the texts between them. -/
theorem structure_of_compile {v : Vendors} {o : Options} {clock : ClockReading} {p : Page}
    {full small : Output} (hp : PlainValues p)
    (hfull : compile v { o with minify := false } clock p = .ok full)
    (hsmall : compile v { o with minify := true } clock p = .ok small) :
    text (read full.html) = full.html ∧ text (read small.html) = small.html ∧
      List.Forall₂ SpansMatch (markup full.html) (markup small.html) := by
  obtain ⟨script, hscript, hhtml, -⟩ := compile_eq hfull
  obtain ⟨script', hscript', hhtml', -⟩ := compile_eq hsmall
  obtain rfl : script = script' := Except.ok.inj (hscript.symm.trans hscript')
  let d := (pageOutline v o clock p script).document
  have hwf : (pageOutline v o clock p script).WellFormed := wellFormed_pageOutline hp.safeValues hscript
  have hd : WellFormed d := hwf.wellFormed_document
  have hreduce : reduce (text d) = text (reduced d) :=
    reduce_text (Outline.reducible_document hwf (fewMetas_pageOutline script))
  have hhtml : full.html = text d := hhtml
  have hhtml' : small.html = text (reduced d) := Eq.trans hhtml' hreduce
  have hread : read full.html = d := by rw [hhtml, read_text hd.legible]
  have hread' : read small.html = reduced d := by rw [hhtml', read_text (reduced_wellFormed hd).legible]
  refine ⟨by rw [hread, hhtml], by rw [hread', hhtml'], ?_⟩
  rw [markup, markup, hread, hread', dropComments_of_uncommented uncommented_reduced]
  have hcalm : EveryAttrs Calm (pageOutline v o clock p script).nodes :=
    everyAttrs_pageOutline admits_calm hp.isUnquoted script
  refine spansMatch_reduced (fun n attrs hm => ?_) hcalm
  obtain ⟨s, hs, ht⟩ := List.mem_map.1 hm
  rcases List.mem_cons.1 (ht ▸ (mem_spans hs).1) with h | h
  · cases h
  · exact h

/-- The tags of a page with texts that look like markup are the same in both documents. -/
theorem structure_of_samplePage : ∃ full small,
    compile {} { minify := false } sampleClock samplePage = .ok full ∧
    compile {} { minify := true } sampleClock samplePage = .ok small ∧ PlainValues samplePage ∧
    List.Forall₂ SpansMatch (markup full.html) (markup small.html) := by
  obtain ⟨full, h⟩ := exists_compile (v := {}) (o := { minify := false }) (p := samplePage) rfl
    sampleClock_inRange
  obtain ⟨small, h'⟩ := exists_compile (v := {}) (o := { minify := true }) (p := samplePage) rfl
    sampleClock_inRange
  exact ⟨full, small, h, h', plainValues_samplePage,
    (structure_of_compile (o := {}) plainValues_samplePage h h').2.2⟩

end PagePress.Markup
