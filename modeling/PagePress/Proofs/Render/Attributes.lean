import PagePress.Proofs.Compile

/-!
The attributes of a page's document. Each is written by the layout in one of few ways, so a
property that the ways respect holds of every attribute outside scripts and stylesheets
(`everyAttrs_pageOutline`).
-/

namespace PagePress.Markup

open Text Html Render Document

/-! ### Names -/

@[simp] theorem fixed_name (n v : String) : (Attribute.fixed n v).name = n := rfl

@[simp] theorem escaped_name (n v : String) : (Attribute.escaped n v).name = n := rfl

@[simp] theorem style_name (p v : String) : (Attribute.style p v).name = "style" := rfl

@[simp] theorem bare_name (n : String) : (Attribute.bare n).name = n := rfl

@[simp] theorem buttonStyle_name (color : String) : (buttonStyle color).name = "style" := rfl

@[simp] theorem background_name (h : Hero) : (background h).1.name = "style" := by
  unfold background
  split <;> rfl

/-! ### Trees -/

mutual

/-- All attributes of a tree have a property, apart from those of scripts and stylesheets. -/
def EveryAttr (q : Attribute → Prop) : Node → Prop
  | .piece _ => True
  | .comment _ => True
  | .void _ attrs => ∀ a ∈ attrs, q a
  | .element n attrs children =>
    n.toList ∉ sealedNames → (∀ a ∈ attrs, q a) ∧ EveryAttrs q children

/-- All attributes of some trees have a property. -/
def EveryAttrs (q : Attribute → Prop) : List Node → Prop
  | [] => True
  | n :: ns => EveryAttr q n ∧ EveryAttrs q ns

end

section

variable {q : Attribute → Prop}

@[simp] theorem everyAttrs_nil : EveryAttrs q [] := trivial

@[simp] theorem everyAttrs_cons {n : Node} {ns : List Node} :
    EveryAttrs q (n :: ns) ↔ EveryAttr q n ∧ EveryAttrs q ns := by
  simp [EveryAttrs]

theorem everyAttrs_iff {ns : List Node} : EveryAttrs q ns ↔ ∀ n ∈ ns, EveryAttr q n := by
  induction ns with
  | nil => simp
  | cons n ns ih => simp [ih]

@[simp] theorem everyAttrs_append {ns ns' : List Node} :
    EveryAttrs q (ns ++ ns') ↔ EveryAttrs q ns ∧ EveryAttrs q ns' := by
  simp [everyAttrs_iff, or_imp, forall_and]

@[simp] theorem everyAttr_line (i : Nat) : EveryAttr q (.line i) := trivial

@[simp] theorem everyAttr_escaped (s : String) : EveryAttr q (.escaped s) := trivial

@[simp] theorem everyAttr_comment (s : String) : EveryAttr q (.comment s) := trivial

@[simp] theorem everyAttr_void {n : String} {attrs : List Attribute} :
    EveryAttr q (.void n attrs) ↔ ∀ a ∈ attrs, q a := by
  rw [EveryAttr]

@[simp] theorem everyAttr_element {n : String} {attrs : List Attribute} {children : List Node}
    (hn : isPlain n = true) :
    EveryAttr q (.element n attrs children) ↔ (∀ a ∈ attrs, q a) ∧ EveryAttrs q children := by
  rw [EveryAttr]
  exact ⟨fun h => h (not_mem_sealedNames hn), fun h _ => h⟩

theorem everyAttr_sealed {n : String} {attrs : List Attribute} {children : List Node}
    (hn : n.toList ∈ sealedNames) : EveryAttr q (.element n attrs children) := by
  rw [EveryAttr]
  exact fun h => absurd hn h

mutual

theorem mem_nodeParts_attrs : ∀ n : Node, EveryAttr q n → ∀ m attrs,
    .tag (.opening m attrs) ∈ nodeParts n → ∃ as : List Attribute, attrs = as.map attrOf ∧ ∀ a ∈ as, q a
  | .piece p, _ => by simp [nodeParts]
  | .comment s, _ => by simp [nodeParts]
  | .void n as, h => by
    intro m attrs hm
    obtain ⟨rfl, rfl⟩ : m = n.toList ∧ attrs = as.map attrOf := by simpa [nodeParts] using hm
    exact ⟨as, rfl, everyAttr_void.1 h⟩
  | .element n as children, h => by
    intro m attrs hm
    by_cases hs : n.toList ∈ sealedNames
    · simp [nodeParts, hs] at hm
    · rw [EveryAttr] at h
      obtain ⟨has, hchildren⟩ := h hs
      have hm : (m = n.toList ∧ attrs = as.map attrOf) ∨ .tag (.opening m attrs) ∈ treeParts children := by
        simpa [nodeParts, hs] using hm
      rcases hm with ⟨rfl, rfl⟩ | hm
      · exact ⟨as, rfl, has⟩
      · exact mem_treeParts_attrs children hchildren m attrs hm

/-- The tags of some trees have attributes with the property. -/
theorem mem_treeParts_attrs : ∀ ns : List Node, EveryAttrs q ns → ∀ m attrs,
    .tag (.opening m attrs) ∈ treeParts ns → ∃ as : List Attribute, attrs = as.map attrOf ∧ ∀ a ∈ as, q a
  | [], _ => by simp [treeParts]
  | n :: ns, h => by
    obtain ⟨h1, h2⟩ := everyAttrs_cons.1 h
    intro m attrs hm
    rcases List.mem_append.1 hm with hm | hm
    · exact mem_nodeParts_attrs n h1 m attrs hm
    · exact mem_treeParts_attrs ns h2 m attrs hm

end

end

/-! ### Attributes of the layout -/

/-- A string without quotation marks. -/
def isUnquoted (s : String) : Bool := s.toList.all fun c => c != '"' && c != '\''

theorem isUnquoted_append {s t : String} (hs : isUnquoted s = true) (ht : isUnquoted t = true) :
    isUnquoted (s ++ t) = true := by
  rw [isUnquoted, String.toList_append, List.all_append, Bool.and_eq_true]
  exact ⟨hs, ht⟩

/-- A property that all attributes of the layout have, if the raw values in them are admitted. -/
structure Admits (q : Attribute → Prop) (r : String → Prop) : Prop where
  bare : ∀ name, q (.bare name)
  escaped : ∀ name value, q (.escaped name value)
  fixed : ∀ {name value}, name ≠ "id" → isUnquoted value = true → q (.fixed name value)
  style : ∀ {property value}, isUnquoted property = true → r value → q (.style property value)
  button : ∀ {color}, r color → q (buttonStyle color)
  image : ∀ {image}, r image → q ⟨"style", some [.fixed "background-image: url('", .raw image,
    .fixed "'); background-size: cover; background-position: center;"]⟩
  inputId : ∀ {form suffix}, escape suffix.toList = suffix.toList →
    q ⟨"id", some [.escaped form, .fixed suffix]⟩

section

variable {q : Attribute → Prop} {r : String → Prop} (hq : Admits q r)
include hq

/-! ### Sections -/

theorem everyAttr_container {id classes kind : String} {animate : Bool} {style : Attribute}
    {children : List Node} (hclasses : isUnquoted classes = true) (hkind : isUnquoted kind = true)
    (hstyle : q style) (hc : EveryAttrs q children) :
    EveryAttr q (container id classes kind animate style children) := by
  have hanimate : isUnquoted (if animate then " animate-fade-in" else "") = true := by
    cases animate <;> decide
  have hclass := isUnquoted_append hclasses hanimate
  simp +decide [container, hq.escaped, hq.fixed, hstyle, hclass, hkind, hc]

theorem admits_background {h : Hero} (hraw : ∀ s ∈ rawValues (.hero h), r s) :
    q (background h).1 := by
  unfold background
  split
  · rename_i g _ hg
    exact hq.style (by decide) (hraw g (by simp [rawValues, eq_some_of_given? hg]))
  · rename_i i _ hi
    exact hq.image (hraw i (by simp [rawValues, eq_some_of_given? hi]))
  · exact hq.style (by decide) (hraw _ (by simp [rawValues]))

theorem everyAttr_hero {id : String} {h : Hero} {c : Context}
    (hraw : ∀ s ∈ rawValues (.hero h), r s) : EveryAttr q (hero id h c) := by
  have htext : q (.style "color" h.textColor) :=
    hq.style (by decide) (hraw _ (by simp [rawValues]))
  have hbutton := hq.button (hraw h.buttonColor (by simp [rawValues]))
  have hstyle := admits_background hq hraw
  have halign : isUnquoted ("hero-section text-" ++ h.alignment.name) = true := by
    cases h.alignment <;> decide
  rw [hero]
  generalize background h = b at hstyle
  obtain ⟨style, overlay⟩ := b
  refine everyAttr_container hq halign (by decide) hstyle ?_
  cases overlay <;> cases h.buttonText.isEmpty <;>
    simp +decide [hq.escaped, hq.fixed, htext, hbutton]

theorem everyAttr_content {id : String} {b : Content} {c : Context}
    (hraw : ∀ s ∈ rawValues (.content b), r s) : EveryAttr q (content id b c) := by
  have htext : q (.style "color" b.textColor) :=
    hq.style (by decide) (hraw _ (by simp [rawValues]))
  have hclasses : isUnquoted ("content-section " ++ b.padding.cssClass) = true := by
    cases b.padding <;> decide
  have hlayout : isUnquoted (contentClasses b) = true := by
    unfold contentClasses
    split
    · decide
    · split <;> decide
  have himage : ∀ url title, EveryAttrs q (contentImage url title) := by
    simp +decide [contentImage, hq.escaped, hq.fixed]
  have hparagraphs : EveryAttrs q (contentText b) := by
    have hp : EveryAttrs q ((paragraphs b.content.toList).flatMap
        fun p => [Node.line 8, Node.element "p" [] [.escaped (.ofList p)]]) := by
      rw [everyAttrs_iff]
      intro n hn
      obtain ⟨p, -, hn⟩ := List.mem_flatMap.1 hn
      simp only [List.mem_cons, List.not_mem_nil, or_false] at hn
      rcases hn with rfl | rfl <;> simp +decide
    simp +decide [contentText, hq.fixed, htext, hp]
  have hparts : EveryAttrs q (contentParts b) := by
    unfold contentParts
    split
    · exact hparagraphs
    · split <;> simp [himage, hparagraphs]
  refine everyAttr_container hq hclasses (by decide)
    (hq.style (by decide) (hraw _ (by simp [rawValues]))) ?_
  simp +decide [hq.fixed, hlayout, hparts]

theorem everyAttrs_input (formId : String) (field : FormField) :
    EveryAttrs q (input formId field) := by
  have hid : q ⟨"id", some [.escaped formId, .fixed ("-" ++ (inputSpec field).name)]⟩ :=
    hq.inputId (by cases field <;> decide)
  have hspec : isUnquoted (inputSpec field).type = true ∧ isUnquoted (inputSpec field).name = true ∧
      isUnquoted (inputSpec field).placeholder = true ∧
      isUnquoted (inputSpec field).autocomplete = true := by
    cases field <;> decide
  simp +decide [input, hq.fixed, hq.bare, hid, hspec]

theorem everyAttr_callToAction {id : String} {a : CallToAction} {c : Context}
    (hraw : ∀ s ∈ rawValues (.callToAction a), r s) :
    EveryAttr q (callToAction id a c) := by
  have htext : q (.style "color" a.textColor) :=
    hq.style (by decide) (hraw _ (by simp [rawValues]))
  have hbutton := hq.button (hraw a.buttonColor (by simp [rawValues]))
  have hinputs : EveryAttrs q (a.formFields.enabled.flatMap (input (formId id))) := by
    rw [everyAttrs_iff]
    intro n hn
    obtain ⟨f, -, hn⟩ := List.mem_flatMap.1 hn
    exact everyAttrs_iff.1 (everyAttrs_input hq _ f) n hn
  have hform : EveryAttr q (if a.formEnabled then form id a c else plainButton a) := by
    split
    · simp +decide [form, hq.escaped, hq.fixed, hinputs, hbutton]
    · simp +decide [plainButton, hq.fixed, hbutton]
  refine everyAttr_container hq (by decide) (by decide)
    (hq.style (by decide) (hraw _ (by simp [rawValues]))) ?_
  simp +decide [hq.fixed, htext, hform]

theorem everyAttr_node? {c : Context} {s : Section} {n : Node} (h : node? c s = some n)
    (hraw : ∀ v ∈ rawValues s.block, r v) : EveryAttr q n := by
  unfold node? at h
  split at h
  · rename_i hb
    obtain rfl := Option.some.inj h
    exact everyAttr_hero hq (hb ▸ hraw)
  · rename_i hb
    obtain rfl := Option.some.inj h
    exact everyAttr_content hq (hb ▸ hraw)
  · rename_i hb
    obtain rfl := Option.some.inj h
    exact everyAttr_callToAction hq (hb ▸ hraw)
  · cases h

/-! ### Documents -/

theorem everyAttrs_metaNode {key value : String} {content : Attribute} (hkey : key ≠ "id")
    (hvalue : isUnquoted value = true) (hcontent : q content) :
    EveryAttrs q (metaNode key value content) := by
  simp [metaNode, hq.fixed hkey hvalue, hcontent]

theorem everyAttrs_metadata (h : DocumentHead) : EveryAttrs q (metadata h) := by
  simp only [metadata, everyAttrs_append]
  refine ⟨⟨⟨⟨⟨⟨⟨⟨⟨⟨⟨⟨⟨⟨?_, ?_⟩, ?_⟩, ?_⟩, ?_⟩, ?_⟩, ?_⟩, ?_⟩, ?_⟩, ?_⟩, ?_⟩, ?_⟩, ?_⟩, ?_⟩, ?_⟩
  all_goals first
    | exact everyAttrs_metaNode hq (by decide) (by decide) (hq.escaped _ _)
    | exact everyAttrs_metaNode hq (by decide) (by decide) (hq.fixed (by decide) (by decide))
    | simp +decide [hq.fixed]

theorem everyAttrs_links (h : DocumentHead) : EveryAttrs q (links h) := by
  unfold links
  split <;> simp +decide [hq.fixed, hq.bare, hq.escaped]

theorem everyAttrs_headTrees (v : Vendors) (o : Options) : EveryAttrs q (headTrees v o) := by
  rw [everyAttrs_iff]
  intro n hn
  rcases mem_intercalate hn with hn | ⟨ns, hns, hn⟩
  · rw [List.mem_singleton.1 hn]
    exact everyAttr_line 0
  · rcases List.mem_append.1 hns with hns | hns
    · obtain ⟨id, -, rfl⟩ := List.mem_map.1 hns
      simp only [Snippet.analytics, List.mem_cons, List.not_mem_nil, or_false] at hn
      rcases hn with rfl | rfl | rfl
      · exact everyAttr_sealed (by decide)
      · exact everyAttr_line 0
      · exact everyAttr_sealed (by decide)
    · obtain ⟨id, -, rfl⟩ := List.mem_map.1 hns
      obtain rfl := List.mem_singleton.1 hn
      simp +decide [hq.fixed, hq.escaped]

omit hq in
theorem everyAttrs_footTrees (v : Vendors) (o : Options) : EveryAttrs q (footTrees v o) := by
  unfold footTrees
  cases (if o.adsense then given? v.adsenseClientId else none) with
  | none => trivial
  | some id =>
    simp only [Option.map_some, Option.getD_some, Snippet.adsenseBody, everyAttrs_cons,
      everyAttrs_nil, everyAttr_line, everyAttr_sealed (q := q) (show "script".toList ∈ sealedNames by decide),
      and_self]

omit hq in
theorem everyAttrs_inserted {ns : List Node} (h : EveryAttrs q ns) :
    EveryAttrs q (Outline.inserted ns) := by
  unfold Outline.inserted
  split <;> simp [h]

theorem everyAttrs_bodyTrees {c : Context} {sections : List Section}
    (h : ∀ s ∈ sections, ∀ v ∈ rawValues s.block, r v) : EveryAttrs q (bodyTrees c sections) := by
  rw [everyAttrs_iff]
  intro n hn
  rcases mem_bodyTrees hn with rfl | ⟨s, hs, hn⟩
  · exact everyAttr_line 0
  · exact everyAttr_node? hq hn (h s hs)

/-- All attributes of a page's document have the property. -/
theorem everyAttrs_pageOutline {v : Vendors} {o : Options} {clock : ClockReading} {p : Page}
    (h : ∀ s ∈ p.sections, ∀ v ∈ rawValues s.block, r v) (script : List Char) :
    EveryAttrs q (pageOutline v o clock p script).nodes := by
  have hscript : EveryAttrs q (pageOutline v o clock p script).scriptNodes := by
    unfold Outline.scriptNodes
    split
    · trivial
    · simp [everyAttr_sealed (q := q) (show "script".toList ∈ sealedNames by decide)]
  have hhead : EveryAttrs q (pageOutline v o clock p script).headNodes := by
    simp [Outline.headNodes, everyAttrs_metadata hq, everyAttrs_links hq, pageOutline,
      everyAttrs_inserted (everyAttrs_headTrees hq v o)]
  have hbody : EveryAttrs q (pageOutline v o clock p script).bodyNodes := by
    simp only [Outline.bodyNodes, everyAttrs_cons, everyAttrs_append, everyAttr_line, hscript,
      everyAttrs_nil, true_and, and_true]
    exact ⟨everyAttrs_bodyTrees hq fun s hs => h s (mem_inOrder.1 hs), everyAttrs_inserted (everyAttrs_footTrees v o)⟩
  simp +decide [Outline.nodes, Outline.children, hq.fixed, hhead, hbody,
    everyAttr_sealed (q := q) (show "style".toList ∈ sealedNames by decide)]

end

end PagePress.Markup
