import PagePress.Proofs.Compile.Embedded
import PagePress.Proofs.Compile.Structure
import PagePress.Proofs.Reduce.Stable

/-!
Compiled documents are reduced as far as they can be (`reduce_of_compile`): the values of a page are
steady once they are tidied, its scripts keep their literals apart from everything else, and its
stylesheet has its semicolons apart, as long as no raw value holds a mark of a tag or a quotation
mark and the colours of the theme are made of a few plain characters.
-/

namespace PagePress.Markup

open Text Html Render Document

/-! ### Scripts and stylesheets of a page -/

/-- One reduction brings the element as far as it can be brought. -/
def Element.Firm (e : Element) : Prop := e.reduced.reduced = e.reduced

theorem seals_firm : Seals Element.Firm where
  script attrs _ _ h := Element.reduced_reduced_script attrs h

theorem firm_styleElement {css : List Char} (h : Stylesheet.Regular css) : (styleElement css).Firm := by
  have hlines : Stylesheet.Regular ['\n'] ∧ Stylesheet.Regular "\n  ".toList :=
    ⟨Stylesheet.regular_of_madeOf (by decide), Stylesheet.regular_of_madeOf (by decide)⟩
  exact Element.reduced_reduced_style [] (hlines.1.append (h.append hlines.2))

variable {v : Vendors} {o : Options} {clock : ClockReading} {p : Page}

/-! ### Documents -/

/-- A character that a colour of a theme is written with: an ASCII letter or digit, a space, or one
of a few marks. -/
def isColourChar (c : Char) : Bool := c.isAlphanum || " #(),.%-".toList.contains c

theorem toNat_of_isColourChar {c : Char} (h : isColourChar c = true) : c.toNat < 0x80 := by
  rcases Bool.or_eq_true_iff.1 h with h | h
  · exact toNat_of_isAlphanum h
  · have hmarks : ∀ c ∈ " #(),.%-".toList, c.toNat < 0x80 := by decide
    exact hmarks c (List.contains_iff_mem.1 h)

theorem isSheetChar_of_isColourChar {c : Char} (h : isColourChar c = true) :
    Stylesheet.isSheetChar c = true := by
  have hall : ∀ n < 0x80, isColourChar (.ofNat n) = true → Stylesheet.isSheetChar (.ofNat n) = true := by
    decide
  simpa [h] using hall c.toNat (toNat_of_isColourChar h)

theorem not_mem_marks_of_isColourChar {c : Char} (h : isColourChar c = true) :
    c ∉ ['<', '>', '"', '\''] := by
  intro hm
  simp only [List.mem_cons, List.not_mem_nil, or_false] at hm
  rcases hm with rfl | rfl | rfl | rfl <;> exact absurd h (by decide)

/-- The values of a page that are inserted as they are: those of its sections hold neither marks of a
tag nor quotation marks, and the colours of its theme are made of plain characters. -/
structure ColourValues (p : Page) : Prop where
  sections : ∀ s ∈ p.sections, ∀ v ∈ rawValues s.block, ∀ c ∈ v.toList, c ∉ ['<', '>', '"', '\'']
  primary : ∀ c ∈ p.theme.primaryColor.toList, isColourChar c = true
  secondary : ∀ c ∈ p.theme.secondaryColor.toList, isColourChar c = true

theorem ColourValues.plainValues (h : ColourValues p) : PlainValues p where
  sections := h.sections
  primary c hc := not_mem_marks_of_isColourChar (h.primary c hc)
  secondary c hc := not_mem_marks_of_isColourChar (h.secondary c hc)

/-- Each tag of a page's document is reduced as far as it can be by one reduction. -/
theorem firm_pageOutline (hp : ColourValues p) {script : List Char} (hscript : Script.Complete script) :
    ∀ s ∈ (pageOutline v o clock p script).document, s.tag.Firm := by
  have hcalm : EveryAttrs Calm (pageOutline v o clock p script).nodes :=
    everyAttrs_pageOutline admits_calm hp.plainValues.isUnquoted script
  have hstyle : (styleElement (Stylesheet.pageText p.theme o.animations)).Firm :=
    firm_styleElement (Stylesheet.regular_pageText
      (fun c hc => isSheetChar_of_isColourChar (hp.primary c hc))
      (fun c hc => isSheetChar_of_isColourChar (hp.secondary c hc)) _)
  intro s hs
  cases ht : s.tag with
  | opening n attrs =>
    rcases List.mem_cons.1 (mem_spans hs).1 with h | h
    · rw [ht] at h
      cases h
    · obtain ⟨as, rfl, has⟩ := mem_treeParts_attrs _ hcalm n attrs (ht ▸ h)
      intro a ha
      obtain ⟨b, hb, rfl⟩ := List.mem_map.1 ha
      exact has b hb
  | sealed e => exact seals_firm.sealed_of_mem_document hscript hstyle hs ht
  | _ => trivial

/-- Reducing a compiled document once more changes nothing. -/
theorem reduce_of_compile {out : Output} (hp : ColourValues p) (hminify : o.minify = true)
    (h : compile v o clock p = .ok out) : reduce out.html = out.html := by
  obtain ⟨script, hscript, hhtml, -⟩ := compile_eq h
  have hwf : (pageOutline v o clock p script).WellFormed :=
    wellFormed_pageOutline hp.plainValues.safeValues hscript
  rw [hhtml, if_pos hminify]
  exact reduce_reduce (Outline.reducible_document hwf (fewMetas_pageOutline script))
    (firm_pageOutline hp (Script.complete_page hscript))

/-- A page with colours that a stylesheet can be shortened by, and with a text that mentions a hint of
images. -/
def colouredPage : Page where
  id := "tea"
  title := "Tea"
  theme := { primaryColor := "rgba(0.50 , 0.0 , 10%, 1)", secondaryColor := " " }
  sections := [
    { id := "a", order := 1,
      block := .content { title := "loading=\"eager\"", content := "a=  ''", imageUrl := some "a b.png" } },
    { id := "b", order := 2, block := .callToAction { buttonText := "'//'", formEnabled := true } }]

theorem colourValues_colouredPage : ColourValues colouredPage where
  sections := by decide
  primary := by decide
  secondary := by decide

theorem reduce_of_colouredPage : ∃ out,
    compile { analyticsId := some "G-1" } { analytics := true } sampleClock colouredPage = .ok out ∧
      ColourValues colouredPage ∧ reduce out.html = out.html := by
  obtain ⟨out, h⟩ := exists_compile (v := { analyticsId := some "G-1" }) (o := { analytics := true })
    (p := colouredPage) rfl sampleClock_inRange
  exact ⟨out, h, colourValues_colouredPage, reduce_of_compile colourValues_colouredPage rfl h⟩

end PagePress.Markup
