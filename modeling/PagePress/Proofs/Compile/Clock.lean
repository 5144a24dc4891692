import PagePress.Proofs.Compile.Forms

/-!
The instant of a compilation. It reaches a document in one place only, the page identifier that
each contact form carries. So a page without forms compiles to the same document at any time, and
the documents of a page with forms are the same once these identifiers are blanked
(`compile_at_any_time`).
-/

namespace PagePress.Markup

open Text Html Render Document

/-! ### Blank page identifiers -/

/-- An attribute with its value blanked if it is a page identifier. -/
def Attr.withoutPageId (a : Attr) : Attr :=
  if a.name = "data-page-id".toList then a.mapValue fun _ => [] else a

/-- Blanks the page identifiers of the forms in a document. -/
def blankingPageIds : Edit where
  attrs n attrs := if n = "form".toList then attrs.map Attr.withoutPageId else attrs
  text s := s

/-- A document whose forms have blank page identifiers. -/
def withoutPageIds (html : List Char) : List Char := text (edit blankingPageIds (read html))

theorem Attr.withoutPageId_of_name {a : Attr} (h : a.name = "data-page-id".toList) :
    a.withoutPageId = a.mapValue fun _ => [] := if_pos h

theorem withoutPageId_mk (v : List Char) :
    Attr.withoutPageId ⟨"data-page-id".toList, some v⟩ = ⟨"data-page-id".toList, some []⟩ :=
  Attr.withoutPageId_of_name rfl

/-- The opening tag of a form: its attributes before the page identifier, that one, and those behind. -/
def formTag (front : List Attr) (c : Context) (back : List Attr) : Tag Element :=
  .opening "form".toList (front ++ ⟨"data-page-id".toList, some (escape c.pageIdentifier.toList)⟩ :: back)

/-- What is made of a tag does not show when a form was built. -/
def Timeless (f : Tag Element → Tag Element) : Prop :=
  ∀ front c t back, f (formTag front { c with stamp := t } back) = f (formTag front c back)

theorem edit_form (attrs : List Attr) : (Tag.opening "form".toList attrs : Tag Element).edit blankingPageIds =
    .opening "form".toList (attrs.map Attr.withoutPageId) := by
  simp only [Tag.edit, blankingPageIds, if_true]

theorem timeless_blanking : Timeless (Tag.edit blankingPageIds) := by
  intro front c t back
  simp only [formTag, edit_form, List.map_append, List.map_cons, withoutPageId_mk]

/-- The hyphen before the stamp keeps a page identifier from vanishing. -/
theorem tidy_pageIdentifier_ne_nil (c : Context) : tidy (escape c.pageIdentifier.toList) ≠ [] := by
  have hhyphen : '-' ∈ c.pageIdentifier.toList := by simp [Context.pageIdentifier]
  have hescape : '-' ∈ escape c.pageIdentifier.toList := List.mem_flatMap.2 ⟨'-', hhyphen, by decide⟩
  apply collapse_ne_nil
  apply List.ne_nil_of_mem (a := '-')
  exact List.mem_filter.2 ⟨hescape, by decide⟩

theorem reduced?_pageId (c : Context) :
    Attr.reduced? ⟨"data-page-id".toList, some (escape c.pageIdentifier.toList)⟩ =
      some ⟨"data-page-id".toList, some (tidy (escape c.pageIdentifier.toList))⟩ := by
  refine Attr.reduced?_value (fun hm => ?_) (fun hm => ?_) (tidy_pageIdentifier_ne_nil c)
  · exact absurd (escape_marks _ hm).1 (by decide)
  · exact (escape_marks _ hm).2 rfl

/-- The reduction never drops a page identifier, so blanking works on reduced forms too. -/
theorem timeless_blanking_reduced : Timeless fun t => t.reduced.edit blankingPageIds := by
  intro front c t back
  have hreduced : ∀ attrs : List Attr, (Tag.opening "form".toList attrs : Tag Element).reduced =
      .opening "form".toList (attrs.filterMap Attr.reduced?) := by
    intro attrs
    have himg : "form".toList ≠ "img".toList := by decide
    simp only [Tag.reduced, hinting, if_neg himg]
  simp only [formTag, hreduced, edit_form, List.filterMap_append, List.map_append,
    List.filterMap_cons, reduced?_pageId, List.map_cons, withoutPageId_mk]

theorem map_treeParts_intercalate (f : Tag Element → Tag Element) (nss : List (List Node)) :
    (treeParts (List.intercalate [.line 0] nss)).map (Part.mapTag f) =
      List.intercalate ((treeParts [.line 0]).map (Part.mapTag f))
        (nss.map fun ns => (treeParts ns).map (Part.mapTag f)) := by
  rw [map_intercalate (f := fun ns => (treeParts ns).map (Part.mapTag f)) rfl]
  intro ns ms
  rw [treeParts_append, List.map_append]

section

variable {f : Tag Element → Tag Element} (hf : Timeless f) (c : Context) (t : Int)
include hf

theorem map_nodeParts_callToAction (id : String) (a : CallToAction) :
    (nodeParts (callToAction id a { c with stamp := t })).map (Part.mapTag f) =
      (nodeParts (callToAction id a c)).map (Part.mapTag f) := by
  have hform : (nodeParts (form id a { c with stamp := t })).map (Part.mapTag f) =
      (nodeParts (form id a c)).map (Part.mapTag f) := by
    have htag := hf (List.map attrOf [.escaped "id" (formId id), .fixed "class" "form-container",
      .fixed "method" "post", .escaped "data-form-handler" c.form.name]) c t
      [attrOf (.escaped "data-recipient-email" a.recipientEmail)]
    simp only [formTag, List.map_cons, List.map_nil, List.cons_append, List.nil_append,
      ← attrOf_escaped] at htag
    rw [form, form, nodeParts_element (by decide), nodeParts_element (by decide), List.map_cons,
      List.map_cons]
    exact congrArg (· :: _) (congrArg Part.tag htag)
  cases he : a.formEnabled with
  | false => simp [callToAction, he, container]
  | true =>
    have hsection : "section".toList ∉ sealedNames := by decide
    have hdiv : "div".toList ∉ sealedNames := by decide
    simp only [callToAction, he, container, if_true, nodeParts_element hsection, nodeParts_element hdiv,
      treeParts, List.map_cons, List.map_append, hform]

theorem map_node?_stamp (s : Section) :
    (node? { c with stamp := t } s).map (fun n => (treeParts [n]).map (Part.mapTag f)) =
      (node? c s).map fun n => (treeParts [n]).map (Part.mapTag f) := by
  obtain ⟨id, order, block⟩ := s
  cases block with
  | hero h => rfl
  | content b => rfl
  | callToAction a =>
    simp only [node?, Option.map_some, treeParts, List.append_nil, map_nodeParts_callToAction hf c t]
  | unknown kind data => rfl

/-- The body of a page, apart from what shows when it was built. -/
theorem map_treeParts_bodyTrees (sections : List Section) :
    (treeParts (bodyTrees { c with stamp := t } sections)).map (Part.mapTag f) =
      (treeParts (bodyTrees c sections)).map (Part.mapTag f) := by
  simp only [bodyTrees, map_treeParts_intercalate, List.map_filterMap, Option.map_map,
    Function.comp_def, map_node?_stamp hf c t]

end

/-! ### Documents -/

/-- Outlines whose bodies are alike for `f` have documents that are. -/
theorem map_document {f : Tag Element → Tag Element} (o : Outline) {ns : List Node}
    (h : (treeParts ns).map (Part.mapTag f) = (treeParts o.body).map (Part.mapTag f)) :
    ({ o with body := ns } : Outline).document.map (Span.mapTag f) = o.document.map (Span.mapTag f) := by
  have hhtml : "html".toList ∉ sealedNames := by decide
  have hbody : "body".toList ∉ sealedNames := by decide
  have hparts : ({ o with body := ns } : Outline).docParts.map (Part.mapTag f) =
      o.docParts.map (Part.mapTag f) := by
    simp only [Outline.docParts, Outline.nodes, Outline.children, Outline.bodyNodes, treeParts,
      treeParts_append, nodeParts_element hhtml, nodeParts_element hbody, List.map_cons, List.map_append, h]
    rfl
  rw [Outline.document, Outline.document, ← spans_mapTag, ← spans_mapTag, hparts]

theorem edit_blanking (d : List (Span Element)) :
    edit blankingPageIds d = d.map (Span.mapTag (Tag.edit blankingPageIds)) := rfl

theorem isComment_reduced (t : Tag Element) :
    (Part.tag (t.reduced.edit blankingPageIds)).isComment = (Part.tag t).isComment := by
  cases t <;> rfl

theorem edit_blanking_reduced (d : List (Span Element)) :
    edit blankingPageIds (reduced d) =
      (dropComments (d.map (Span.mapTag fun t => t.reduced.edit blankingPageIds))).map fun s =>
        ⟨s.tag, unlessBlank (tidy s.after)⟩ := by
  rw [dropComments_mapTag isComment_reduced, reduced_eq, edit_blanking, List.map_map, List.map_map]
  rfl

/-! ### Compilation -/

variable {v : Vendors} {o : Options} {clock clock' : ClockReading} {p : Page}

theorem bodyTrees_stamp {sections : List Section} (h : ∀ s ∈ sections, s.form? = none) (c : Context)
    (t : Int) : bodyTrees { c with stamp := t } sections = bodyTrees c sections := by
  have hnode : ∀ s ∈ sections, node? { c with stamp := t } s = node? c s := by
    rintro ⟨id, order, block⟩ hs
    have hform := h _ hs
    cases block with
    | callToAction a =>
      have he : a.formEnabled = false := by simpa [Section.form?] using hform
      simp [node?, callToAction, he, container]
    | _ => rfl
  rw [bodyTrees, bodyTrees, List.filterMap_congr hnode]

theorem pageOutline_clock (clock : ClockReading) (script : List Char) :
    pageOutline v o clock' p script = { pageOutline v o clock p script with
      body := bodyTrees { Compile.context o clock p (Section.inOrder p.sections) with
        stamp := epochMillis clock' } (Section.inOrder p.sections) } := rfl

/-- The document of a page with blank page identifiers is the same at any time. -/
theorem blanked_document (v : Vendors) (o : Options) (clock clock' : ClockReading) (p : Page)
    (script : List Char) :
    edit blankingPageIds (pageOutline v o clock' p script).document =
        edit blankingPageIds (pageOutline v o clock p script).document ∧
      edit blankingPageIds (reduced (pageOutline v o clock' p script).document) =
        edit blankingPageIds (reduced (pageOutline v o clock p script).document) := by
  have hmap : ∀ f, Timeless f → (pageOutline v o clock' p script).document.map (Span.mapTag f) =
      (pageOutline v o clock p script).document.map (Span.mapTag f) := by
    intro f hf
    rw [pageOutline_clock clock]
    exact map_document _ (map_treeParts_bodyTrees hf _ _ _)
  constructor
  · rw [edit_blanking, edit_blanking, hmap _ timeless_blanking]
  · rw [edit_blanking_reduced, edit_blanking_reduced, hmap _ timeless_blanking_reduced]

/-- The time at which a page is compiled shows in nothing but the page identifiers of its forms, and
in the time stamp of the record. -/
theorem compile_at_any_time {out out' : Output} (h : compile v o clock p = .ok out)
    (h' : compile v o clock' p = .ok out') :
    ((∀ s ∈ p.sections, s.form? = none) → out'.html = out.html ∧ out'.size = out.size ∧
        out'.warnings = out.warnings ∧ out'.checksum = out.checksum) ∧
      (SafeValues p → text (read out.html) = out.html ∧ text (read out'.html) = out'.html ∧
        withoutPageIds out'.html = withoutPageIds out.html) := by
  constructor
  · intro hforms
    obtain ⟨script, hscript, hhtml, hwarnings⟩ := compile_eq h
    obtain ⟨script', hscript', hhtml', hwarnings'⟩ := compile_eq h'
    obtain rfl : script = script' := Except.ok.inj (hscript.symm.trans hscript')
    obtain ⟨hsize, hchecksum⟩ := measures_of_compile h
    obtain ⟨hsize', hchecksum'⟩ := measures_of_compile h'
    have hsame : pageOutline v o clock' p script = pageOutline v o clock p script := by
      rw [pageOutline_clock clock,
        bodyTrees_stamp fun s hs => hforms s (mem_inOrder.1 hs)]
      rfl
    have hhtml : out'.html = out.html := by rw [hhtml, hhtml', hsame]
    exact ⟨hhtml, by rw [hsize, hsize', hhtml], by rw [hwarnings, hwarnings', hhtml],
      by rw [hchecksum, hchecksum', hhtml]⟩
  · intro hp
    obtain ⟨script, hscript, hread⟩ := read_of_compile hp h
    obtain ⟨script', hscript', hread'⟩ := read_of_compile hp h'
    obtain rfl : script = script' := Except.ok.inj (hscript.symm.trans hscript')
    obtain ⟨hfull, hreduced⟩ := blanked_document v o clock clock' p script
    refine ⟨text_read_of_compile hp h, text_read_of_compile hp h', ?_⟩
    rw [withoutPageIds, withoutPageIds, hread, hread']
    split
    · rw [hreduced]
    · rw [hfull]

/-- A page without forms. -/
def noticePage : Page where
  id := "closed"
  title := "Closed"
  sections := [{ id := "top", order := 0, block := .hero { headline := "Back in spring" } }]

/-- A clock at noon of the next leap day. -/
def laterClock : ClockReading where
  year := 2028
  month := 2
  day := 29
  hour := 12

theorem samplePage_at_any_time : ∃ notice notice' sample sample',
    compile {} {} sampleClock noticePage = .ok notice ∧ compile {} {} laterClock noticePage = .ok notice' ∧
    compile {} {} sampleClock samplePage = .ok sample ∧ compile {} {} laterClock samplePage = .ok sample' ∧
    (∀ s ∈ noticePage.sections, s.form? = none) ∧ SafeValues samplePage ∧
    notice'.html = notice.html ∧ notice'.checksum = notice.checksum ∧
    withoutPageIds sample'.html = withoutPageIds sample.html := by
  have hlater : (isoTimestamp? laterClock).isSome = true := by decide
  obtain ⟨notice, hn⟩ := exists_compile (v := {}) (o := {}) (p := noticePage) rfl sampleClock_inRange
  obtain ⟨notice', hn'⟩ := exists_compile (v := {}) (o := {}) (p := noticePage) rfl hlater
  obtain ⟨sample, hs⟩ := exists_compile (v := {}) (o := {}) (p := samplePage) rfl sampleClock_inRange
  obtain ⟨sample', hs'⟩ := exists_compile (v := {}) (o := {}) (p := samplePage) rfl hlater
  have hforms : ∀ s ∈ noticePage.sections, s.form? = none := by decide
  obtain ⟨hhtml, -, -, hchecksum⟩ := (compile_at_any_time hn hn').1 hforms
  exact ⟨notice, notice', sample, sample', hn, hn', hs, hs', hforms, safeValues_samplePage, hhtml,
    hchecksum, ((compile_at_any_time hs hs').2 safeValues_samplePage).2.2⟩

end PagePress.Markup
