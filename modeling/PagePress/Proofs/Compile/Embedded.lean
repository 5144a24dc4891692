import PagePress.Proofs.Compile.Style
import PagePress.Proofs.Percent
import PagePress.Proofs.Reduce.Newlines
import PagePress.Proofs.Render.Legible

/-!
The scripts and the stylesheet in the document of a page. All scripts are made of complete parts and
load nothing but addresses that are percent-encoded, so what follows from this for one script holds
throughout the document (`Seals.everySealed_pageOutline`).
-/

namespace PagePress.Markup

open Text Html Render Document

/-! ### Trees -/

/-- All scripts and stylesheets in a tree have a property. -/
def SealedIn (f : Element → Prop) (n : Node) : Prop := ∀ e, .tag (.sealed e) ∈ nodeParts n → f e

/-- All scripts and stylesheets in some trees have a property. -/
def EverySealed (f : Element → Prop) (ns : List Node) : Prop :=
  ∀ e, .tag (.sealed e) ∈ treeParts ns → f e

section

variable {f : Element → Prop}

@[simp] theorem everySealed_nil : EverySealed f [] := by simp [EverySealed, treeParts]

@[simp] theorem everySealed_cons {n : Node} {ns : List Node} :
    EverySealed f (n :: ns) ↔ SealedIn f n ∧ EverySealed f ns := by
  simp [EverySealed, SealedIn, treeParts, or_imp, forall_and]

theorem everySealed_iff {ns : List Node} : EverySealed f ns ↔ ∀ n ∈ ns, SealedIn f n := by
  induction ns with
  | nil => simp
  | cons n ns ih => simp [ih]

@[simp] theorem everySealed_append {ns ns' : List Node} :
    EverySealed f (ns ++ ns') ↔ EverySealed f ns ∧ EverySealed f ns' := by
  simp [EverySealed, treeParts_append, or_imp, forall_and]

@[simp] theorem sealedIn_line (i : Nat) : SealedIn f (.line i) := by
  simp [SealedIn, Node.line, Node.fixed, nodeParts]

@[simp] theorem sealedIn_escaped (s : String) : SealedIn f (.escaped s) := by
  simp [SealedIn, Node.escaped, nodeParts]

@[simp] theorem sealedIn_comment (s : String) : SealedIn f (.comment s) := by
  simp [SealedIn, nodeParts]

@[simp] theorem sealedIn_void (n : String) (attrs : List Attribute) : SealedIn f (.void n attrs) := by
  simp [SealedIn, nodeParts]

@[simp] theorem sealedIn_element {n : String} (hn : isPlain n = true) {attrs : List Attribute}
    {children : List Node} : SealedIn f (.element n attrs children) ↔ EverySealed f children := by
  simp [SealedIn, EverySealed, nodeParts_element (not_mem_sealedNames hn)]

theorem sealedIn_sealed {n : String} (hn : n.toList ∈ sealedNames) {attrs : List Attribute}
    {children : List Node} :
    SealedIn f (.element n attrs children) ↔ f ⟨n.toList, attrs.map attrOf, Node.textAll children⟩ := by
  simp [SealedIn, nodeParts, hn]

mutual

theorem sealedIn_of_framed : ∀ n : Node, Framed n → SealedIn f n
  | .piece p, _ => by simp [SealedIn, nodeParts]
  | .comment s, h => absurd h (by simp [Framed])
  | .void n attrs, _ => sealedIn_void n attrs
  | .element n attrs children, h => by
    obtain ⟨hn, -, hc⟩ := framed_element.1 h
    exact (sealedIn_element hn).2 (everySealed_of_framed children hc)

/-- There are no scripts and stylesheets in the frames of sections. -/
theorem everySealed_of_framed : ∀ ns : List Node, FramedAll ns → EverySealed f ns
  | [], _ => everySealed_nil
  | n :: ns, h => by
    obtain ⟨h1, h2⟩ := framedAll_cons.1 h
    exact everySealed_cons.2 ⟨sealedIn_of_framed n h1, everySealed_of_framed ns h2⟩

end

theorem everySealed_metadata (h : DocumentHead) : EverySealed f (metadata h) := by
  simp +decide [metadata, metaNode]

theorem everySealed_links (h : DocumentHead) : EverySealed f (links h) := by
  unfold links
  split <;> simp

theorem everySealed_inserted {ns : List Node} (h : EverySealed f ns) :
    EverySealed f (Outline.inserted ns) := by
  unfold Outline.inserted
  split <;> simp [h]

end

/-! ### Addresses -/

theorem return_not_mem_escape {s : List Char} (h : '\r' ∉ s) : '\r' ∉ escape s := by
  intro hm
  obtain ⟨c, hc, hm⟩ := List.mem_flatMap.1 hm
  unfold escapeChar at hm
  split at hm
  case h_6 => exact h (List.mem_singleton.1 hm ▸ hc)
  all_goals
    revert hm
    decide

theorem return_not_mem_encode (s : List Char) : '\r' ∉ Percent.encode s :=
  fun hm => absurd (Percent.mem_encode hm) (by decide)

theorem unbroken_source {w : String} (hw : '\r' ∉ w.toList) (id : String) :
    ∀ v, (attrOf ⟨"src", some [.fixed w, .address id]⟩).value = some v → '\r' ∉ v := by
  intro v hv
  obtain rfl := Option.some.inj hv
  have hid := return_not_mem_escape (return_not_mem_encode id.toList)
  simp [Piece.textAll, Piece.text, hw, hid]

/-! ### Pages -/

/-- A property that a script has if its text is complete and its attributes are unbroken. -/
structure Seals (f : Element → Prop) : Prop where
  script : ∀ attrs s, Unbroken attrs → Script.Complete s → f ⟨"script".toList, attrs, s⟩

theorem complete_textAll {ns : List Node} (h : ∀ n ∈ ns, Script.Complete n.text) :
    Script.Complete (Node.textAll ns) := by
  induction ns with
  | nil => exact .nil
  | cons n ns ih => exact (h n (by simp)).append (ih fun m hm => h m (by simp [hm]))

namespace Seals

variable {f : Element → Prop} (hf : Seals f)
include hf

/-- A script element with complete pieces has the property. -/
theorem element {attrs : List Attribute} {children : List Node} (ha : Unbroken (attrs.map attrOf))
    (h : ∀ n ∈ children, Script.Complete n.text) : SealedIn f (.element "script" attrs children) :=
  (sealedIn_sealed (by decide)).2 (hf.script _ _ ha (complete_textAll h))

set_option maxRecDepth 20000 in
theorem everySealed_analytics (id : String) : EverySealed f (Snippet.analytics id) := by
  simp only [Snippet.analytics, everySealed_cons, sealedIn_line, everySealed_nil, and_true, true_and]
  refine ⟨hf.element ?_ (by simp), hf.element (by simp) ?_⟩
  · simp only [List.map_cons, List.map_nil, unbroken_cons, unbroken_nil, and_true]
    exact ⟨by simp [attrOf, Attribute.bare], unbroken_source (by decide) id⟩
  · simp only [List.forall_mem_cons, Node.text]
    exact ⟨Script.complete_text_fixed rfl (by decide), Script.complete_text_literal id,
      Script.complete_text_fixed rfl (by decide), by simp⟩

set_option maxRecDepth 20000 in
theorem everySealed_adsenseBody (id : String) : EverySealed f (Snippet.adsenseBody id) := by
  simp only [Snippet.adsenseBody, everySealed_cons, sealedIn_line, everySealed_nil, and_true, true_and]
  refine ⟨hf.element ?_ (by simp), hf.element (by simp) ?_⟩
  · simp only [List.map_cons, List.map_nil, unbroken_cons, unbroken_nil, and_true]
    refine ⟨by simp [attrOf, Attribute.bare], unbroken_source (by decide) id, ?_⟩
    intro v hv
    obtain rfl := Option.some.inj hv
    decide
  · simp only [List.forall_mem_cons, Node.text]
    exact ⟨Script.complete_text_fixed rfl (by decide), Script.complete_text_literal id,
      Script.complete_text_fixed rfl (by decide), by simp⟩

theorem everySealed_headTrees (v : Vendors) (o : Options) : EverySealed f (headTrees v o) := by
  rw [everySealed_iff]
  intro n hn
  rcases mem_intercalate hn with hn | ⟨ns, hns, hn⟩
  · rw [List.mem_singleton.1 hn]
    exact sealedIn_line 0
  · rcases List.mem_append.1 hns with hns | hns
    · obtain ⟨id, -, rfl⟩ := List.mem_map.1 hns
      exact everySealed_iff.1 (hf.everySealed_analytics id) n hn
    · obtain ⟨id, -, rfl⟩ := List.mem_map.1 hns
      rw [List.mem_singleton.1 hn]
      exact sealedIn_void _ _

theorem everySealed_footTrees (v : Vendors) (o : Options) : EverySealed f (footTrees v o) := by
  unfold footTrees
  cases (if o.adsense then given? v.adsenseClientId else none) with
  | none => exact everySealed_nil
  | some id => exact hf.everySealed_adsenseBody id

theorem everySealed_scriptNodes {outline : Outline} (h : Script.Complete outline.script) :
    EverySealed f outline.scriptNodes := by
  unfold Outline.scriptNodes
  split
  · exact everySealed_nil
  · simp only [everySealed_cons, sealedIn_line, everySealed_nil, and_true, true_and]
    refine hf.element (by simp) ?_
    have hraw : (Node.raw (.ofList outline.script)).text = outline.script := String.toList_ofList
    simp only [List.forall_mem_cons, hraw, h, true_and]
    exact ⟨Script.complete_text_fixed rfl (by decide), Script.complete_text_fixed rfl (by decide), by simp⟩

/-- The scripts of a page have the property, and so does the stylesheet if it is given to have it. -/
theorem everySealed_pageOutline {v : Vendors} {o : Options} {clock : ClockReading} {p : Page}
    {script : List Char} (hscript : Script.Complete script)
    (hstyle : f (styleElement (Stylesheet.pageText p.theme o.animations))) :
    EverySealed f (pageOutline v o clock p script).nodes := by
  have hhead : EverySealed f (pageOutline v o clock p script).headNodes := by
    simp [Outline.headNodes, everySealed_metadata, everySealed_links, pageOutline,
      everySealed_inserted (hf.everySealed_headTrees v o)]
  have hbody : EverySealed f (pageOutline v o clock p script).bodyNodes := by
    simp only [Outline.bodyNodes, everySealed_cons, everySealed_append, sealedIn_line, everySealed_nil,
      true_and, and_true]
    exact ⟨⟨everySealed_of_framed _ (framedAll_bodyTrees _ _), hf.everySealed_scriptNodes hscript⟩,
      everySealed_inserted (hf.everySealed_footTrees v o)⟩
  have hsheet : SealedIn f (.element "style" [] (pageOutline v o clock p script).sheet) := by
    intro e he
    rw [Outline.nodeParts_sheet, List.mem_singleton] at he
    cases he
    exact hstyle
  simp +decide [Outline.nodes, Outline.children, hhead, hbody, hsheet]

/-- What holds of the scripts and of the stylesheet of a page holds of what is sealed up in its
document. -/
theorem sealed_of_mem_document {v : Vendors} {o : Options} {clock : ClockReading} {p : Page}
    {script : List Char} (hscript : Script.Complete script)
    (hstyle : f (styleElement (Stylesheet.pageText p.theme o.animations))) {s : Span Element}
    (hs : s ∈ (pageOutline v o clock p script).document) {e : Element} (he : s.tag = .sealed e) : f e := by
  rcases List.mem_cons.1 (mem_spans hs).1 with h | h
  · rw [he] at h
    cases h
  · exact hf.everySealed_pageOutline hscript hstyle e (he ▸ h)

end Seals

end PagePress.Markup
