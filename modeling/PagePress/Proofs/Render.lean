import PagePress.Proofs.Markup.Tree
import PagePress.Render.Section

/-!
Sections as documents. Texts of an author are escaped wherever they stand, so a section is a
proper tree as soon as its raw values hold no marks of a tag.
-/

namespace PagePress.Markup

open Text Html Render

/-! ### Pieces -/

/-- An escaped text holds no marks of a tag and no quotes. -/
theorem escape_marks {s : List Char} : ∀ c ∈ escape s, isValueChar c = true ∧ c ≠ '\'' := by
  intro c hc
  obtain ⟨d, -, hc⟩ := List.mem_flatMap.1 hc
  have key : ∀ u ∈ ["&amp;", "&lt;", "&gt;", "&#39;", "&#34;"], ∀ c ∈ u.toList,
      isValueChar c = true ∧ c ≠ '\'' := by decide
  unfold escapeChar at hc
  split at hc
  · exact key "&amp;" (by decide) c hc
  · exact key "&lt;" (by decide) c hc
  · exact key "&gt;" (by decide) c hc
  · exact key "&#39;" (by decide) c hc
  · exact key "&#34;" (by decide) c hc
  · rename_i h1 h2 h3 h4 h5
    obtain rfl := List.mem_singleton.1 hc
    refine ⟨?_, h4⟩
    simp only [isValueChar, isTextChar, Bool.and_eq_true, bne_iff_ne]
    exact ⟨⟨h2, h3⟩, h5⟩

theorem isValue_escape (s : List Char) : IsValue (escape s) := fun c hc => (escape_marks c hc).1

@[simp] theorem proper_escaped (s : String) : Proper (.escaped s) :=
  isTextChar_of_isValue (isValue_escape s.toList)

@[simp] theorem proper_line (n : Nat) : Proper (.line n) := by
  intro c hc
  have hc : c ∈ '\n' :: List.replicate n ' ' := by simpa [Piece.text] using hc
  rcases List.mem_cons.1 hc with rfl | hc
  · decide
  · rw [List.eq_of_mem_replicate hc]
    decide

@[simp] theorem properAttribute_bare (name : String) :
    ProperAttribute (.bare name) ↔ isAttrName name.toList = true :=
  ⟨fun h => h.name, fun h => ⟨h, by rintro _ ⟨⟩⟩⟩

@[simp] theorem properAttribute_escaped (name value : String) :
    ProperAttribute (.escaped name value) ↔ isAttrName name.toList = true := by
  refine ⟨fun h => h.name, fun h => ⟨h, ?_⟩⟩
  rintro _ ⟨⟩ p hp
  rw [List.mem_singleton.1 hp]
  exact isValue_escape value.toList

@[simp] theorem properAttribute_mk (name : String) (pieces : List Piece) :
    ProperAttribute ⟨name, some pieces⟩ ↔
      isAttrName name.toList = true ∧ ∀ p ∈ pieces, IsValue p.text := by
  refine ⟨fun h => ⟨h.name, h.value _ rfl⟩, fun h => ⟨h.1, ?_⟩⟩
  rintro _ ⟨⟩
  exact h.2

@[simp] theorem properAttribute_fixed (name value : String) :
    ProperAttribute (.fixed name value) ↔ isAttrName name.toList = true ∧ IsValue value.toList := by
  simp [Attribute.fixed, Piece.text]

@[simp] theorem properAttribute_style (property value : String) :
    ProperAttribute (.style property value) ↔ IsValue property.toList ∧ IsValue value.toList := by
  have h1 : isAttrName "style".toList = true := by decide
  have h2 : IsValue ": ".toList := by decide
  have h3 : IsValue ";".toList := by decide
  simp only [Attribute.style, properAttribute_mk, h1, true_and, List.forall_mem_cons, Piece.text,
    String.toList_append, isValue_append, h2, h3, and_true]
  simp

/-- A name of elements that have a closing tag and hold markup. -/
def isPlain (n : String) : Bool :=
  isName n.toList && !Inspect.voidElements.contains n && !Shield.names.contains n

theorem not_mem_sealedNames {n : String} (hn : isPlain n = true) : n.toList ∉ sealedNames := by
  simp only [isPlain, Bool.and_eq_true, Bool.not_eq_true', List.contains_eq_mem,
    decide_eq_false_iff_not] at hn
  intro hm
  simp only [sealedNames, List.mem_cons, List.not_mem_nil, or_false] at hm
  rcases hm with h | h
  · exact hn.2 (String.toList_inj.1 h ▸ by decide)
  · exact hn.2 (String.toList_inj.1 h ▸ by decide)

@[simp] theorem proper_element {n : String} {attrs : List Attribute} {children : List Node}
    (hn : isPlain n = true) : Proper (.element n attrs children) ↔
      (∀ a ∈ attrs, ProperAttribute a) ∧ ProperAll children := by
  have hs := not_mem_sealedNames hn
  simp only [isPlain, Bool.and_eq_true, Bool.not_eq_true', List.contains_eq_mem,
    decide_eq_false_iff_not] at hn
  obtain ⟨⟨h1, h2⟩, h3⟩ := hn
  rw [Proper, if_neg hs]
  exact ⟨fun h => ⟨h.1.proper, h.2.2⟩, fun h => ⟨⟨⟨h1, h2⟩, h.1⟩, h3, h.2⟩⟩

/-! ### Raw values -/

/-- The values of a section that are inserted as they are. -/
def rawValues : Block → List String
  | .hero h => [h.backgroundColor, h.textColor, h.buttonColor] ++ h.backgroundGradient.toList ++
      h.backgroundImage.toList
  | .content b => [b.backgroundColor, b.textColor]
  | .callToAction a => [a.backgroundColor, a.textColor, a.buttonColor]
  | .unknown _ _ => []

theorem eq_some_of_given? {x : Option String} {s : String} (h : given? x = some s) : x = some s :=
  (Option.filter_eq_some_iff.1 h).1

theorem proper_container {id classes kind : String} {animate : Bool} {style : Attribute}
    {children : List Node} (hclasses : IsValue classes.toList) (hkind : IsValue kind.toList)
    (hstyle : ProperAttribute style) (hc : ProperAll children) :
    Proper (container id classes kind animate style children) := by
  have hanimate : IsValue (if animate then " animate-fade-in" else "").toList := by
    cases animate <;> decide
  simp +decide [container, hstyle, hanimate, hkind, hclasses, hc]

theorem properAttribute_buttonStyle {color : String} (h : IsValue color.toList) :
    ProperAttribute (buttonStyle color) := by
  simp +decide [buttonStyle, Piece.text, h]

/-! ### Sections -/

theorem proper_hero {id : String} {h : Hero} {c : Context}
    (hraw : ∀ s ∈ rawValues (.hero h), IsValue s.toList) : Proper (hero id h c) := by
  have hcolor : IsValue h.backgroundColor.toList := hraw _ (by simp [rawValues])
  have htext : IsValue h.textColor.toList := hraw _ (by simp [rawValues])
  have hbutton := properAttribute_buttonStyle (hraw h.buttonColor (by simp [rawValues]))
  have hstyle : ProperAttribute (background h).1 := by
    unfold background
    split
    · rename_i g _ hg
      have : IsValue g.toList := hraw g (by simp [rawValues, eq_some_of_given? hg])
      simp +decide [this]
    · rename_i i _ hi
      have : IsValue i.toList := hraw i (by simp [rawValues, eq_some_of_given? hi])
      simp +decide [Piece.text, this]
    · simp +decide [hcolor]
  have halign : IsValue ("hero-section text-" ++ h.alignment.name).toList := by
    cases h.alignment <;> decide
  rw [hero]
  generalize background h = b at hstyle
  obtain ⟨style, overlay⟩ := b
  refine proper_container halign (by decide) hstyle ?_
  cases overlay <;> cases h.buttonText.isEmpty <;> simp +decide [htext, hbutton]

theorem proper_content {id : String} {b : Content} {c : Context}
    (hraw : ∀ s ∈ rawValues (.content b), IsValue s.toList) : Proper (content id b c) := by
  have hcolor : IsValue b.backgroundColor.toList := hraw _ (by simp [rawValues])
  have htext : IsValue b.textColor.toList := hraw _ (by simp [rawValues])
  have hclasses : IsValue ("content-section " ++ b.padding.cssClass).toList := by
    cases b.padding <;> decide
  have hlayout : IsValue (contentClasses b).toList := by
    unfold contentClasses
    split
    · decide
    · split <;> decide
  have himage : ∀ url title, ProperAll (contentImage url title) := by
    intro url title
    have himg : Proper (.void "img" [.escaped "src" url, .escaped "alt" title,
        .fixed "class" "responsive-image"]) := by
      refine ⟨by decide, by simp +decide, fun _ => ?_, fun h => absurd h (by decide)⟩
      exact ⟨attrOf (.escaped "alt" title), by simp, by simp [attrOf, Attribute.escaped]⟩
    simp +decide [contentImage, himg]
  have hparagraphs : ProperAll (contentText b) := by
    have hp : ∀ ps : List (List Char), ProperAll
        (ps.flatMap fun p => [Node.line 8, Node.element "p" [] [.escaped (.ofList p)]]) := by
      intro ps
      induction ps with
      | nil => trivial
      | cons p ps ih => simp +decide [List.flatMap_cons, ih]
    simp +decide [contentText, htext, hp]
  have hparts : ProperAll (contentParts b) := by
    unfold contentParts
    split
    · exact hparagraphs
    · split <;> simp [himage, hparagraphs]
  refine proper_container hclasses (by decide) (by simp +decide [hcolor]) ?_
  simp +decide [hlayout, hparts]

/-- The attributes of an input other than its id, with whatever the id is. -/
theorem inputSpec_values (field : FormField) :
    (∀ s ∈ [(inputSpec field).type, (inputSpec field).name, (inputSpec field).placeholder,
      (inputSpec field).autocomplete], IsValue s.toList ∧ '\'' ∉ s.toList ∧ ∃ c ∈ s.toList, c ≠ '\x00') ∧
      IsValue ("-" ++ (inputSpec field).name).toList ∧
      '\'' ∉ ("-" ++ (inputSpec field).name).toList := by
  cases field <;> decide

theorem proper_input (formId : String) (field : FormField) : ProperAll (input formId field) := by
  obtain ⟨hspec, hid, hquote⟩ := inputSpec_values field
  simp only [List.forall_mem_cons] at hspec
  obtain ⟨⟨t1, t2, t3⟩, ⟨n1, n2, n3⟩, ⟨p1, p2, p3⟩, ⟨c1, c2, c3⟩, -⟩ := hspec
  have hvoid : Proper (.void "input"
      [.fixed "type" (inputSpec field).type,
        ⟨"id", some [.escaped formId, .fixed ("-" ++ (inputSpec field).name)]⟩,
        .fixed "name" (inputSpec field).name, .fixed "placeholder" (inputSpec field).placeholder,
        .fixed "aria-label" (inputSpec field).placeholder,
        .fixed "autocomplete" (inputSpec field).autocomplete,
        .fixed "class" "form-field", .bare "required"]) := by
    refine ⟨by decide, ?_, fun h => absurd h (by decide), fun _ => ⟨?_, ?_⟩⟩
    · have hid : IsValue ('-' :: (inputSpec field).name.toList) := by simpa using hid
      simp +decide [Piece.text, isValue_escape, hid, t1, n1, p1, c1]
    · exact ⟨attrOf (.fixed "placeholder" (inputSpec field).placeholder), by simp,
        by simp [attrOf, Attribute.fixed], by simp [attrOf, Attribute.fixed]⟩
    · have hfixed : ∀ {name value : String}, '\'' ∉ value.toList ∧ (∃ c ∈ value.toList, c ≠ '\x00') →
          ∀ v, (attrOf (.fixed name value)).value = some v → '\'' ∉ v ∧ ∃ c ∈ v, c ≠ '\x00' := by
        intro name value h v hv
        have hv : value.toList = v := by simpa [attrOf, Attribute.fixed, Piece.textAll, Piece.text] using hv
        exact hv ▸ h
      have hid : ∀ v, (attrOf ⟨"id", some [.escaped formId,
          .fixed ("-" ++ (inputSpec field).name)]⟩).value = some v → '\'' ∉ v ∧ ∃ c ∈ v, c ≠ '\x00' := by
        intro v hv
        have hv : escape formId.toList ++ ("-" ++ (inputSpec field).name).toList = v := by
          simpa [attrOf, Piece.textAll, Piece.text] using hv
        rw [← hv]
        refine ⟨?_, '-', by simp, by decide⟩
        rw [List.mem_append, not_or]
        exact ⟨fun hm => (escape_marks _ hm).2 rfl, hquote⟩
      simp only [List.map_cons, List.map_nil, List.forall_mem_cons]
      exact ⟨hfixed ⟨t2, t3⟩, hid, hfixed ⟨n2, n3⟩, hfixed ⟨p2, p3⟩, hfixed ⟨p2, p3⟩, hfixed ⟨c2, c3⟩,
        hfixed (by decide), by rintro v ⟨⟩, by simp⟩
  simp +decide [input, hvoid]

theorem proper_form {id : String} {a : CallToAction} {c : Context}
    (hraw : IsValue a.buttonColor.toList) : Proper (form id a c) := by
  have hinputs : ProperAll (a.formFields.enabled.flatMap (input (formId id))) := by
    rw [properAll_iff]
    intro n hn
    obtain ⟨f, -, hn⟩ := List.mem_flatMap.1 hn
    exact properAll_iff.1 (proper_input _ f) n hn
  simp +decide [form, hinputs, properAttribute_buttonStyle hraw]

theorem proper_callToAction {id : String} {a : CallToAction} {c : Context}
    (hraw : ∀ s ∈ rawValues (.callToAction a), IsValue s.toList) : Proper (callToAction id a c) := by
  have hcolor : IsValue a.backgroundColor.toList := hraw _ (by simp [rawValues])
  have htext : IsValue a.textColor.toList := hraw _ (by simp [rawValues])
  have hbutton : IsValue a.buttonColor.toList := hraw _ (by simp [rawValues])
  have hplain : Proper (plainButton a) := by
    simp +decide [plainButton, properAttribute_buttonStyle hbutton]
  have hform : Proper (if a.formEnabled then form id a c else plainButton a) := by
    split
    · exact proper_form hbutton
    · exact hplain
  refine proper_container (by decide) (by decide) (by simp +decide [hcolor]) ?_
  simp +decide [htext, hform]

end PagePress.Markup
