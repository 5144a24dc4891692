import PagePress.Proofs.Compile.Forms

/-!
Tags that stand in sections only. A reader of a compiled document finds them as the sections have
them, with the attributes as they are seen (`attrsOf_of_compile`).
-/

namespace PagePress.Markup

open Text Html Render Document

variable {n : String}

section

variable {v : Vendors} {o : Options} {clock : ClockReading} {p : Page} {out : Output}

/-- The elements that stand in sections only. -/
def sectionTags : List String := ["section", "a"]

theorem mem_sectionTags : n ∈ sectionTags ↔ n = "section" ∨ n = "a" := by
  simp [sectionTags]

theorem treeAttrs_headTrees (hn : n ∈ sectionTags) (v : Vendors) (o : Options) :
    treeAttrs n (headTrees v o) = [] := by
  unfold headTrees
  cases (if o.analytics then given? v.analyticsId else none) <;>
    cases (if o.adsense then given? v.adsenseClientId else none) <;>
      rcases mem_sectionTags.1 hn with rfl | rfl <;>
        simp +decide [nodeAttrs, Snippet.analytics, Snippet.adsenseHead]

theorem treeAttrs_footTrees (hn : n ∈ sectionTags) (v : Vendors) (o : Options) :
    treeAttrs n (footTrees v o) = [] := by
  unfold footTrees
  cases (if o.adsense then given? v.adsenseClientId else none) <;>
    rcases mem_sectionTags.1 hn with rfl | rfl <;> simp +decide [nodeAttrs, Snippet.adsenseBody]

/-- Outside the sections the layout has no tags of these names. -/
theorem treeAttrs_pageOutline (hn : n ∈ sectionTags) (script : List Char) :
    treeAttrs n (pageOutline v o clock p script).nodes =
      treeAttrs n (pageOutline v o clock p script).body := by
  have hinserted : ∀ ns, treeAttrs n ns = [] → treeAttrs n (Outline.inserted ns) = [] := fun ns h =>
    List.sublist_nil.1 (h ▸ Outline.treeAttrs_inserted n ns)
  have hhead : treeAttrs n (Outline.inserted (pageOutline v o clock p script).headSnippets) = [] :=
    hinserted _ (treeAttrs_headTrees hn v o)
  have hfoot : treeAttrs n (Outline.inserted (pageOutline v o clock p script).bodySnippets) = [] :=
    hinserted _ (treeAttrs_footTrees hn v o)
  have hscript : treeAttrs n (pageOutline v o clock p script).scriptNodes = [] := by
    unfold Outline.scriptNodes
    split <;> simp +decide [nodeAttrs, Node.line, Node.fixed]
  have hmetadata : treeAttrs n (metadata (pageOutline v o clock p script).head) = [] := by
    rcases mem_sectionTags.1 hn with rfl | rfl <;> simp +decide [metadata, metaNode, nodeAttrs]
  have hlinks : treeAttrs n (links (pageOutline v o clock p script).head) = [] := by
    unfold links
    split <;> rcases mem_sectionTags.1 hn with rfl | rfl <;> simp +decide [nodeAttrs]
  have hnames : "html" ≠ n ∧ "head" ≠ n ∧ "body" ≠ n := by
    rcases mem_sectionTags.1 hn with rfl | rfl <;> decide
  simp +decide [Outline.nodes, Outline.children, Outline.headNodes, Outline.bodyNodes, nodeAttrs, hnames,
    hmetadata, hlinks, hscript, hhead, hfoot]

/-- The tags of these names that a reader finds in the document of a page. -/
theorem attrsOf_of_compile (hp : SafeValues p) (h : compile v o clock p = .ok out) (hn : n ∈ sectionTags) :
    attrsOf n.toList (read out.html) =
      (treeAttrs n (bodyTrees (Compile.context o clock p (Section.inOrder p.sections))
        (Section.inOrder p.sections))).map fun as => (as.map attrOf).filterMap (Attr.seen? o.minify) := by
  obtain ⟨script, -, hread⟩ := read_of_compile hp h
  have hdocument : attrsOf n.toList (pageOutline v o clock p script).document = _ :=
    Outline.attrsOf_document n (pageOutline v o clock p script)
  rw [treeAttrs_pageOutline hn] at hdocument
  rw [hread]
  cases o.minify with
  | false =>
    have hsome : ∀ as : List Attribute, (as.map attrOf).filterMap (Attr.seen? false) = as.map attrOf :=
      fun as => List.filterMap_some
    simp only [Bool.false_eq_true, if_false, hdocument, hsome]
    rfl
  | true =>
    have himg : n.toList ≠ "img".toList := by
      rcases mem_sectionTags.1 hn with rfl | rfl <;> decide
    simp only [if_true, attrsOf_reduced, hdocument, hinting, if_neg himg, List.map_map]
    rfl

end

end PagePress.Markup
