import PagePress.Proofs.Compile
import PagePress.Proofs.Inspect

/-!
The warnings about a page. The document of a page has everything that the inspection asks for, and
the reduction keeps it so; what is left to warn of are the place of the stylesheet, the size of the
document and the addresses in it.
-/

namespace PagePress.Markup

open Text Html Document

namespace Outline

variable {o : Outline}

theorem mem_attrsOf_document {n : String} {attrs : List Attribute} (h : attrs ∈ treeAttrs n o.nodes) :
    attrs.map attrOf ∈ attrsOf n.toList o.document := by
  rw [attrsOf_document]
  exact List.mem_map.2 ⟨attrs, h, rfl⟩

theorem title_metadata (h : DocumentHead) : [] ∈ treeAttrs "title" (metadata h) := by
  have htitle : [] ∈ nodeAttrs "title" (.element "title" [] [.escaped h.title]) := by
    simp +decide [nodeAttrs]
  simp [metadata, htitle]

theorem viewport_metadata (h : DocumentHead) :
    [.fixed "name" "viewport", .fixed "content" "width=device-width, initial-scale=1.0"] ∈
      treeAttrs "meta" (metadata h) := by
  simp only [metadata, treeAttrs_append, treeAttrs_metaNode, List.mem_append, List.mem_singleton]
  simp

/-- The document of an outline has what the inspection asks for. -/
theorem inspectable_document (h : o.WellFormed) : Inspectable o.document := by
  have hproper := h.proper_nodes
  have htags : o.document.map Span.tag =
      .declaration "DOCTYPE html".toList :: (treeParts o.nodes).filterMap Part.tag? := by
    rw [document, tags_spans]
    rfl
  refine ⟨h.wellFormed_document, ?_, ?_, ?_, ?_, ?_, ?_, ?_, ?_, ?_⟩
  · intro s t hs
    obtain rfl : _ = s := Option.some.inj hs
    rintro ⟨⟩
  · simp [htags]
  · have : [.fixed "lang" "en"] ∈ treeAttrs "html" o.nodes := by simp +decide [nodes, nodeAttrs]
    exact List.ne_nil_of_mem (mem_attrsOf_document this)
  · have : [] ∈ treeAttrs "head" o.nodes := by simp +decide [nodes, children, nodeAttrs]
    exact mem_attrsOf_document this
  · have : [] ∈ treeAttrs "body" o.nodes := by simp +decide [nodes, children, nodeAttrs]
    exact mem_attrsOf_document this
  · have : [] ∈ treeAttrs "title" o.nodes := by
      simp +decide [nodes, children, nodeAttrs, headNodes, title_metadata]
    exact mem_attrsOf_document this
  · have : [.fixed "name" "viewport", .fixed "content" "width=device-width, initial-scale=1.0"] ∈
        treeAttrs "meta" o.nodes := by
      simp +decide [nodes, children, nodeAttrs, headNodes, viewport_metadata]
    have hattr : attrOf (.fixed "name" "viewport") = ⟨"name".toList, some "viewport".toList⟩ := by
      simp [attrOf, Attribute.fixed, Piece.textAll, Piece.text]
    have hmem := mem_attrsOf_document this
    rw [List.map_cons, hattr] at hmem
    exact ⟨_, hmem⟩
  · rw [htags]
    have hdeclaration : Balanced [.declaration "DOCTYPE html".toList] := fun n => by split <;> rfl
    exact hdeclaration.append (balanced_treeParts o.nodes hproper)
  · intro n attrs hattrs
    obtain ⟨s, hs, ht⟩ := exists_opening hattrs
    have hmem : .tag (.opening n attrs) ∈ o.docParts := ht ▸ (mem_spans hs).1
    rcases List.mem_cons.1 hmem with hmem | hmem
    · cases hmem
    · exact accessible_treeParts o.nodes hproper n attrs hmem

end Outline

/-- A warning about the place of the stylesheet, the size of a document or an address in it. -/
def IsAdvice : Warning → Prop
  | .externalStyles => True
  | .finding f => (∃ k, f = .oversized k) ∨ f = .scriptAddress ∨ f = .documentAddress

theorem isAdvice_oversize {html : List Char} {f : Finding} (h : f ∈ Inspect.oversize html) :
    IsAdvice (.finding f) := by
  simp only [Inspect.oversize] at h
  split at h
  · exact .inl ⟨_, List.mem_singleton.1 h⟩
  · cases h

theorem isAdvice_refusedAddresses {html : List Char} {f : Finding}
    (h : f ∈ Inspect.refusedAddresses html) : IsAdvice (.finding f) := by
  simp only [Inspect.refusedAddresses, List.mem_append] at h
  rcases h with h | h
  · split at h
    · exact .inr (.inl (List.mem_singleton.1 h))
    · cases h
  · split at h
    · exact .inr (.inr (List.mem_singleton.1 h))
    · cases h

/-- A page whose raw values hold no marks of a tag compiles without a warning about its markup. -/
theorem warnings_of_compile {v : Vendors} {o : Options} {clock : ClockReading} {p : Page} {out : Output}
    (hp : SafeValues p) (h : compile v o clock p = .ok out) :
    out.warnings = (if o.inlineCss then [] else [.externalStyles]) ++
        (Inspect.oversize out.html ++ Inspect.refusedAddresses out.html).map .finding ∧
      ∀ w ∈ out.warnings, IsAdvice w := by
  obtain ⟨script, hscript, hhtml, hwarnings⟩ := compile_eq h
  have hwf : (pageOutline v o clock p script).WellFormed := wellFormed_pageOutline hp hscript
  have hinspectable := Outline.inspectable_document hwf
  have hinspect : inspect out.html =
      Inspect.oversize out.html ++ Inspect.refusedAddresses out.html := by
    rw [hhtml]
    split
    · rw [reduce_text (Outline.reducible_document hwf (fewMetas_pageOutline script))]
      exact inspect_text hinspectable.reduced
    · exact inspect_text hinspectable
  have heq : out.warnings = (if o.inlineCss then [] else [.externalStyles]) ++
      (Inspect.oversize out.html ++ Inspect.refusedAddresses out.html).map .finding := by
    rw [hwarnings, Compile.warnings, hinspect]
  refine ⟨heq, fun w hw => ?_⟩
  rw [heq, List.mem_append] at hw
  rcases hw with hw | hw
  · split at hw
    · cases hw
    · obtain rfl := List.mem_singleton.1 hw
      trivial
  · obtain ⟨f, hf, rfl⟩ := List.mem_map.1 hw
    rcases List.mem_append.1 hf with hf | hf
    · exact isAdvice_oversize hf
    · exact isAdvice_refusedAddresses hf

/-- A page with texts that look like markup compiles without such warnings. -/
theorem warnings_of_samplePage : ∃ out, compile {} {} sampleClock samplePage = .ok out ∧
    SafeValues samplePage ∧ ∀ w ∈ out.warnings, IsAdvice w := by
  obtain ⟨out, h⟩ := exists_compile (v := {}) (o := {}) (p := samplePage) rfl sampleClock_inRange
  exact ⟨out, h, safeValues_samplePage, (warnings_of_compile safeValues_samplePage h).2⟩

end PagePress.Markup
