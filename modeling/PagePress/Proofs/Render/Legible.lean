import PagePress.Proofs.Markup.Reader
import PagePress.Proofs.Render.Attributes

/-!
Sections as a reader finds them. What the layout writes can be told apart whatever the texts and
the raw values of the author are, as long as no raw value holds a quotation mark: the marks of a
tag that stand between quotation marks end nothing (`read_body`).
-/

namespace PagePress.Markup

open Text Html Render

/-! ### Frames -/

mutual

/-- A tree of plain elements and texts, with names that its tags and attributes can be told by. -/
def Framed : Node → Prop
  | .piece p => '<' ∉ p.text
  | .comment _ => False
  | .void n attrs => n ∈ Inspect.voidElements ∧ ∀ a ∈ attrs, isAttrName a.name.toList = true
  | .element n attrs children =>
    isPlain n = true ∧ (∀ a ∈ attrs, isAttrName a.name.toList = true) ∧ FramedAll children

def FramedAll : List Node → Prop
  | [] => True
  | n :: ns => Framed n ∧ FramedAll ns

end

@[simp] theorem framedAll_nil : FramedAll [] := trivial

@[simp] theorem framedAll_cons {n : Node} {ns : List Node} :
    FramedAll (n :: ns) ↔ Framed n ∧ FramedAll ns := by
  simp [FramedAll]

theorem framedAll_iff {ns : List Node} : FramedAll ns ↔ ∀ n ∈ ns, Framed n := by
  induction ns with
  | nil => simp
  | cons n ns ih => simp [ih]

@[simp] theorem framedAll_append {ns ns' : List Node} :
    FramedAll (ns ++ ns') ↔ FramedAll ns ∧ FramedAll ns' := by
  simp [framedAll_iff, or_imp, forall_and]

@[simp] theorem framed_void {n : String} {attrs : List Attribute} :
    Framed (.void n attrs) ↔
      n ∈ Inspect.voidElements ∧ ∀ a ∈ attrs, isAttrName a.name.toList = true := by
  rw [Framed]

@[simp] theorem framed_element {n : String} {attrs : List Attribute} {children : List Node} :
    Framed (.element n attrs children) ↔
      isPlain n = true ∧ (∀ a ∈ attrs, isAttrName a.name.toList = true) ∧ FramedAll children := by
  rw [Framed]

@[simp] theorem framed_escaped (s : String) : Framed (.escaped s) := by
  have h : '<' ∉ escape s.toList := fun hm => absurd (isValue_escape _ _ hm) (by decide)
  simpa [Node.escaped, Framed, Piece.text] using h

@[simp] theorem framed_line (i : Nat) : Framed (.line i) := by
  simp [Node.line, Node.fixed, Framed, Piece.text]

theorem quote_not_mem_escape (s : List Char) : '"' ∉ escape s :=
  fun hm => absurd (isValue_escape s _ hm) (by decide)

/-- An attribute whose value ends where it should. -/
def Closed (a : Attribute) : Prop := ∀ v, (attrOf a).value = some v → '"' ∉ v

theorem legible_attrs {attrs : List Attribute} (hn : ∀ a ∈ attrs, isAttrName a.name.toList = true)
    (hv : ∀ a ∈ attrs, Closed a) : ∀ a ∈ attrs.map attrOf, a.Legible := by
  intro a ha
  obtain ⟨b, hb, rfl⟩ := List.mem_map.1 ha
  exact ⟨hn b hb, hv b hb⟩

mutual

theorem legible_nodeParts : ∀ n : Node, Framed n → EveryAttr Closed n → ∀ p ∈ nodeParts n, p.Legible
  | .piece p, h, _ => by simpa [nodeParts, Part.Legible, Framed] using h
  | .comment s, h, _ => absurd h (by simp [Framed])
  | .void n attrs, h, ha => by
    obtain ⟨hn, hnames⟩ := framed_void.1 h
    obtain ⟨h1, h2⟩ := isName_of_void hn
    intro p hp
    obtain rfl : p = _ := by simpa [nodeParts] using hp
    exact ⟨h1, h2, legible_attrs hnames (everyAttr_void.1 ha)⟩
  | .element n attrs children, h, ha => by
    obtain ⟨hn, hnames, hc⟩ := framed_element.1 h
    obtain ⟨hattrs, hca⟩ := (everyAttr_element hn).1 ha
    have ih := legible_treeParts children hc hca
    have hs := not_mem_sealedNames hn
    simp only [isPlain, Bool.and_eq_true, Bool.not_eq_true', List.contains_eq_mem,
      decide_eq_false_iff_not] at hn
    intro p hp
    have hp : p = .tag (.opening n.toList (attrs.map attrOf)) ∨ p ∈ treeParts children ∨
        p = .tag (.closing n.toList) := by simpa [nodeParts, hs] using hp
    rcases hp with rfl | hp | rfl
    · refine ⟨hn.1.1, fun m hm he => hn.2 ?_, legible_attrs hnames hattrs⟩
      rwa [← String.toList_inj.1 he]
    · exact ih p hp
    · exact hn.1.1

/-- Frames are legible if no value in them holds a quotation mark. -/
theorem legible_treeParts : ∀ ns : List Node, FramedAll ns → EveryAttrs Closed ns →
    ∀ p ∈ treeParts ns, p.Legible
  | [], _, _ => by simp [treeParts]
  | n :: ns, h, ha => by
    obtain ⟨h1, h2⟩ := framedAll_cons.1 h
    obtain ⟨ha1, ha2⟩ := everyAttrs_cons.1 ha
    intro p hp
    rcases List.mem_append.1 hp with hp | hp
    · exact legible_nodeParts n h1 ha1 p hp
    · exact legible_treeParts ns h2 ha2 p hp

end

/-! ### Sections -/

theorem framed_container {id classes kind : String} {animate : Bool} {style : Attribute}
    {children : List Node} (hs : style.name = "style") (hc : FramedAll children) :
    Framed (container id classes kind animate style children) := by
  simp +decide [container, hs, hc]

theorem framed_hero (id : String) (h : Hero) (c : Context) : Framed (hero id h c) := by
  have hstyle := background_name h
  rw [hero]
  generalize background h = b at hstyle
  obtain ⟨style, overlay⟩ := b
  refine framed_container hstyle ?_
  cases overlay <;> cases h.buttonText.isEmpty <;> simp +decide

theorem framed_content (id : String) (b : Content) (c : Context) : Framed (content id b c) := by
  have himage : ∀ url title, FramedAll (contentImage url title) := by
    simp +decide [contentImage]
  have htext : FramedAll (contentText b) := by
    have hp : FramedAll ((paragraphs b.content.toList).flatMap
        fun p => [Node.line 8, Node.element "p" [] [.escaped (.ofList p)]]) := by
      rw [framedAll_iff]
      intro n hn
      obtain ⟨p, -, hn⟩ := List.mem_flatMap.1 hn
      simp only [List.mem_cons, List.not_mem_nil, or_false] at hn
      rcases hn with rfl | rfl <;> simp +decide
    simp +decide [contentText, hp]
  have hparts : FramedAll (contentParts b) := by
    unfold contentParts
    split
    · exact htext
    · split <;> simp [himage, htext]
  refine framed_container rfl ?_
  simp +decide [hparts]

theorem framed_callToAction (id : String) (a : CallToAction) (c : Context) :
    Framed (callToAction id a c) := by
  have hinput : ∀ form field, FramedAll (input form field) := by
    simp +decide [input]
  have hfields : ∀ form, FramedAll (a.formFields.enabled.flatMap (input form)) := by
    intro form
    rw [framedAll_iff]
    intro n hn
    obtain ⟨field, -, hn⟩ := List.mem_flatMap.1 hn
    exact framedAll_iff.1 (hinput form field) n hn
  have hform : Framed (form id a c) := by
    simp +decide [form, hfields]
  have hplain : Framed (plainButton a) := by
    simp +decide [plainButton]
  refine framed_container rfl ?_
  cases a.formEnabled <;> simp +decide [hform, hplain]

theorem framed_node? {c : Context} {s : Section} {n : Node} (h : node? c s = some n) : Framed n := by
  unfold node? at h
  split at h
  · obtain rfl := Option.some.inj h
    exact framed_hero _ _ _
  · obtain rfl := Option.some.inj h
    exact framed_content _ _ _
  · obtain rfl := Option.some.inj h
    exact framed_callToAction _ _ _
  · cases h

theorem framedAll_bodyTrees (c : Context) (sections : List Section) : FramedAll (bodyTrees c sections) := by
  rw [framedAll_iff]
  intro n hn
  rcases mem_bodyTrees hn with rfl | ⟨s, -, hs⟩
  · exact framed_line 0
  · exact framed_node? hs

theorem closed_mk {name : String} {pieces : List Piece} (h : ∀ p ∈ pieces, '"' ∉ p.text) :
    Closed ⟨name, some pieces⟩ := by
  rintro _ ⟨⟩ hm
  obtain ⟨p, hp, hm⟩ := List.mem_flatMap.1 hm
  exact h p hp hm

theorem not_mem_of_isUnquoted {s : String} (h : isUnquoted s = true) : '"' ∉ s.toList := by
  intro hm
  have := List.all_eq_true.1 h _ hm
  exact absurd this (by decide)

theorem closed_between {name before after value : String} (hb : '"' ∉ before.toList)
    (ha : '"' ∉ after.toList) (hv : '"' ∉ value.toList) :
    Closed ⟨name, some [.fixed before, .raw value, .fixed after]⟩ := by
  refine closed_mk ?_
  simp only [List.forall_mem_cons, Piece.text]
  exact ⟨hb, hv, ha, by simp⟩

/-- Every value of the layout ends where it should, if no raw value holds a quotation mark. -/
theorem admits_closed : Admits Closed fun v => '"' ∉ v.toList where
  bare _ := by rintro _ ⟨⟩
  escaped _ value := closed_mk (by simpa [Piece.text] using quote_not_mem_escape value.toList)
  fixed _ h := closed_mk (by simpa [Piece.text] using not_mem_of_isUnquoted h)
  style hp := closed_between (not_mem_of_isUnquoted (isUnquoted_append hp (by decide))) (by decide)
  button := closed_between (by decide) (by decide)
  image := closed_between (by decide) (by decide)
  inputId {form suffix} h := by
    refine closed_mk ?_
    simp only [List.forall_mem_cons, Piece.text]
    exact ⟨quote_not_mem_escape form.toList, h ▸ quote_not_mem_escape suffix.toList, by simp⟩

/-- What a reader finds in the text of some sections. -/
theorem read_body {c : Context} {sections : List Section}
    (h : ∀ s ∈ sections, ∀ v ∈ rawValues s.block, '"' ∉ v.toList) :
    read (Render.body c sections) = spans (treeParts (bodyTrees c sections)) := by
  rw [← textAll_bodyTrees, ← chars_treeParts]
  exact read_parts (legible_treeParts _ (framedAll_bodyTrees c sections)
    (everyAttrs_bodyTrees admits_closed h))

end PagePress.Markup
