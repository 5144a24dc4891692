import PagePress.Html.Node
import PagePress.Inspect
import PagePress.Proofs.Markup.Parts

/-!
Trees as documents. A proper tree has names that its tags can be told by, void elements where
there is no closing tag and other elements where there is one, values and texts without the marks
of a tag, and what a screen reader needs. It is written as a document that is well formed,
balanced and accessible.
-/

namespace PagePress.Markup

open Text Html

/-! ### Parts of a tree -/

/-- An attribute with its value as it is written. -/
def attrOf (a : Attribute) : Attr := ⟨a.name.toList, a.value.map Piece.textAll⟩

mutual

/-- The parts of a tree; the content of scripts and stylesheets is sealed up. -/
def nodeParts : Node → List (Part Element)
  | .piece p => [.text p.text]
  | .comment s => [.tag (.comment s.toList)]
  | .void n attrs => [.tag (.opening n.toList (attrs.map attrOf))]
  | .element n attrs children =>
    if n.toList ∈ sealedNames then
      [.tag (.sealed ⟨n.toList, attrs.map attrOf, Node.textAll children⟩)]
    else
      .tag (.opening n.toList (attrs.map attrOf)) ::
        (treeParts children ++ [.tag (.closing n.toList)])

/-- The parts of some trees. -/
def treeParts : List Node → List (Part Element)
  | [] => []
  | n :: ns => nodeParts n ++ treeParts ns

end

theorem nodeParts_element {n : String} (hn : n.toList ∉ sealedNames) (attrs : List Attribute)
    (children : List Node) : nodeParts (.element n attrs children) =
      .tag (.opening n.toList (attrs.map attrOf)) ::
        (treeParts children ++ [.tag (.closing n.toList)]) := by
  rw [nodeParts, if_neg hn]

theorem treeParts_append (ns ns' : List Node) : treeParts (ns ++ ns') = treeParts ns ++ treeParts ns' := by
  induction ns with
  | nil => rfl
  | cons n ns ih => simp [treeParts, ih]

theorem textAll_append (ns ns' : List Node) :
    Node.textAll (ns ++ ns') = Node.textAll ns ++ Node.textAll ns' := by
  induction ns with
  | nil => rfl
  | cons n ns ih => simp [Node.textAll, ih]

theorem attrOf_text (a : Attribute) : (attrOf a).text = a.text := by
  obtain ⟨n, v⟩ := a
  cases v <;> rfl

theorem openingText_attrOf (n : String) (attrs : List Attribute) :
    openingText n.toList (attrs.map attrOf) = Node.openingText n attrs := by
  simp [openingText, Node.openingText, List.flatMap_map, attrOf_text]

mutual

theorem chars_nodeParts : ∀ n : Node, (nodeParts n).flatMap Part.chars = n.text
  | .piece p => by simp [nodeParts, Part.chars, Node.text]
  | .comment s => by
    simp [nodeParts, Part.chars, Node.text, Tag.text]
  | .void n attrs => by
    simp [nodeParts, Part.chars, Node.text, Tag.text, openingText_attrOf]
  | .element n attrs children => by
    have ih := chars_treeParts children
    by_cases h : n.toList ∈ sealedNames
    · simp [nodeParts, h, Part.chars, Node.text, Tag.text, Written.text, openingText_attrOf, closingText,
        Node.closingText]
    · simp [nodeParts, h, Part.chars, Node.text, Tag.text, openingText_attrOf, closingText,
        Node.closingText, ih]

/-- The parts of a tree make up its text. -/
theorem chars_treeParts : ∀ ns : List Node, (treeParts ns).flatMap Part.chars = Node.textAll ns
  | [] => rfl
  | n :: ns => by
    simp [treeParts, Node.textAll, chars_nodeParts n, chars_treeParts ns]

end

/-! ### Tags of one name -/

mutual

/-- The attributes of the tags of a name in a tree, in order. -/
def nodeAttrs (n : String) : Node → List (List Attribute)
  | .piece _ => []
  | .comment _ => []
  | .void m attrs => if m = n then [attrs] else []
  | .element m attrs children =>
    if m.toList ∈ sealedNames then []
    else (if m = n then [attrs] else []) ++ treeAttrs n children

/-- The attributes of the tags of a name in some trees, in order. -/
def treeAttrs (n : String) : List Node → List (List Attribute)
  | [] => []
  | m :: ms => nodeAttrs n m ++ treeAttrs n ms

end

@[simp] theorem treeAttrs_nil (n : String) : treeAttrs n [] = [] := rfl

@[simp] theorem treeAttrs_cons (n : String) (m : Node) (ms : List Node) :
    treeAttrs n (m :: ms) = nodeAttrs n m ++ treeAttrs n ms := rfl

@[simp] theorem treeAttrs_append (n : String) (ns ns' : List Node) :
    treeAttrs n (ns ++ ns') = treeAttrs n ns ++ treeAttrs n ns' := by
  induction ns with
  | nil => rfl
  | cons m ns ih => simp [ih]

theorem attrsOf?_opening (n m : String) (attrs : List Attribute) :
    (Part.attrsOf? (ε := Element) n.toList (.tag (.opening m.toList (attrs.map attrOf)))).toList =
      (if m = n then [attrs] else []).map (List.map attrOf) := by
  by_cases h : m = n
  · simp [Part.attrsOf?, Tag.attrsOf?, h]
  · have hne : m.toList ≠ n.toList := fun he => h (String.toList_inj.1 he)
    simp [Part.attrsOf?, Tag.attrsOf?, h, hne]

mutual

theorem attrsOf_nodeParts (n : String) : ∀ m : Node,
    (nodeParts m).filterMap (Part.attrsOf? n.toList) = (nodeAttrs n m).map (List.map attrOf)
  | .piece p => rfl
  | .comment s => rfl
  | .void m attrs => by
    rw [nodeParts, nodeAttrs, ← attrsOf?_opening]
    cases h : Part.attrsOf? (ε := Element) n.toList (.tag (.opening m.toList (attrs.map attrOf))) <;>
      simp [h]
  | .element m attrs children => by
    by_cases hs : m.toList ∈ sealedNames
    · simp [nodeParts, nodeAttrs, hs, Part.attrsOf?, Tag.attrsOf?]
    · have ih := attrsOf_treeParts n children
      have hclosing : Part.attrsOf? (ε := Element) n.toList (.tag (.closing m.toList)) = none := rfl
      rw [nodeParts, nodeAttrs, if_neg hs, if_neg hs, List.map_append, ← attrsOf?_opening, ← ih]
      cases h : Part.attrsOf? (ε := Element) n.toList (.tag (.opening m.toList (attrs.map attrOf))) <;>
        simp [h, hclosing]

/-- The tags of a name are known from the trees of a document. -/
theorem attrsOf_treeParts (n : String) : ∀ ms : List Node,
    (treeParts ms).filterMap (Part.attrsOf? n.toList) = (treeAttrs n ms).map (List.map attrOf)
  | [] => rfl
  | m :: ms => by
    rw [treeParts, List.filterMap_append, attrsOf_nodeParts n m, attrsOf_treeParts n ms,
      treeAttrs_cons, List.map_append]

end

/-! ### Proper trees -/

/-- A text without the marks of a tag and without quotation marks. -/
def IsValue (s : List Char) : Prop := ∀ c ∈ s, isValueChar c = true

instance : DecidablePred IsValue := fun s => inferInstanceAs (Decidable (∀ c ∈ s, isValueChar c = true))

@[simp] theorem isValue_append {s t : List Char} : IsValue (s ++ t) ↔ IsValue s ∧ IsValue t := by
  simp [IsValue, or_imp, forall_and]

/-- An attribute with a name, and with a value that ends where it should. -/
structure ProperAttribute (a : Attribute) : Prop where
  name : isAttrName a.name.toList = true
  value : ∀ pieces, a.value = some pieces → ∀ p ∈ pieces, IsValue p.text

/-- An input whose placeholder tells what it is for; its values hold something and no
apostrophe. -/
structure Labelled (attrs : List Attr) : Prop where
  placeholder : ∃ a ∈ attrs, a.name = "placeholder".toList ∧ a.value.isSome = true
  values : ∀ a ∈ attrs, ∀ v, a.value = some v → '\'' ∉ v ∧ ∃ c ∈ v, c ≠ '\x00'

/-- What a screen reader needs of a tag. -/
structure Accessible (n : List Char) (attrs : List Attr) : Prop where
  image : n = "img".toList → ∃ a ∈ attrs, a.name = "alt".toList
  input : n = "input".toList → Labelled attrs

/-- A tag without a closing one. -/
structure VoidTag (n : String) (attrs : List Attribute) : Prop where
  name : n ∈ Inspect.voidElements
  proper : ∀ a ∈ attrs, ProperAttribute a
  accessible : Accessible n.toList (attrs.map attrOf)

/-- A tag with a closing one. -/
structure PairedTag (n : String) (attrs : List Attribute) : Prop where
  name : isName n.toList = true ∧ n ∉ Inspect.voidElements
  proper : ∀ a ∈ attrs, ProperAttribute a

mutual

def Proper : Node → Prop
  | .piece p => ∀ c ∈ p.text, isTextChar c = true
  | .comment s => ∀ c ∈ s.toList, isTextChar c = true ∧ c ≠ '-' ∧ c ≠ '[' ∧ c ≠ '\x00'
  | .void n attrs => VoidTag n attrs
  | .element n attrs children =>
    PairedTag n attrs ∧
      if n.toList ∈ sealedNames then '<' ∉ Node.textAll children
      else n ∉ Shield.names ∧ ProperAll children

def ProperAll : List Node → Prop
  | [] => True
  | n :: ns => Proper n ∧ ProperAll ns

end

@[simp] theorem properAll_nil : ProperAll [] := trivial

@[simp] theorem properAll_cons {n : Node} {ns : List Node} :
    ProperAll (n :: ns) ↔ Proper n ∧ ProperAll ns := by
  simp [ProperAll]

theorem properAll_iff {ns : List Node} : ProperAll ns ↔ ∀ n ∈ ns, Proper n := by
  induction ns with
  | nil => simp
  | cons n ns ih => simp [ih]

@[simp] theorem properAll_append {ns ns' : List Node} :
    ProperAll (ns ++ ns') ↔ ProperAll ns ∧ ProperAll ns' := by
  simp [properAll_iff, or_imp, forall_and]

theorem isTextChar_of_isValue {s : List Char} (h : IsValue s) : ∀ c ∈ s, isTextChar c = true :=
  fun c hc => (Bool.and_eq_true_iff.1 (h c hc)).1

theorem ProperAttribute.wellFormed {a : Attribute} (h : ProperAttribute a) : (attrOf a).WellFormed := by
  refine ⟨h.name, fun v hv c hc => ?_⟩
  obtain ⟨pieces, hp, rfl⟩ := Option.map_eq_some_iff.1 hv
  obtain ⟨p, hmem, hc⟩ := List.mem_flatMap.1 hc
  exact h.value pieces hp p hmem c hc

theorem attrs_wellFormed {attrs : List Attribute} (h : ∀ a ∈ attrs, ProperAttribute a) :
    ∀ a ∈ attrs.map attrOf, a.WellFormed := by
  intro a ha
  obtain ⟨b, hb, rfl⟩ := List.mem_map.1 ha
  exact (h b hb).wellFormed

/-- A part that a well-formed document can be made of. -/
def Part.WellFormed : Part Element → Prop
  | text s => ∀ c ∈ s, isTextChar c = true
  | tag t => t.WellFormed

theorem isName_of_void {n : String} (h : n ∈ Inspect.voidElements) :
    isName n.toList = true ∧ ∀ m ∈ Shield.names, m.toList ≠ n.toList := by
  have : ∀ n ∈ Inspect.voidElements, isName n.toList = true ∧ ∀ m ∈ Shield.names, m.toList ≠ n.toList := by
    decide
  exact this n h

mutual

theorem wellFormed_nodeParts : ∀ n : Node, Proper n → ∀ p ∈ nodeParts n, p.WellFormed
  | .piece p, h => by simpa [nodeParts, Part.WellFormed, Proper] using h
  | .comment s, h => by simpa [nodeParts, Part.WellFormed, Proper, Tag.WellFormed] using h
  | .void n attrs, h => by
    have h : VoidTag n attrs := by simpa [Proper] using h
    obtain ⟨h1, h2⟩ := isName_of_void h.name
    intro p hp
    obtain rfl : p = _ := by simpa [nodeParts] using hp
    exact ⟨h1, h2, attrs_wellFormed h.proper⟩
  | .element n attrs children, h => by
    obtain ⟨htag, hrest⟩ : PairedTag n attrs ∧ _ := by simpa only [Proper] using h
    intro p hp
    by_cases hs : n.toList ∈ sealedNames
    · rw [if_pos hs] at hrest
      obtain rfl : p = _ := by simpa [nodeParts, hs] using hp
      exact ⟨hs, attrs_wellFormed htag.proper, hrest⟩
    · rw [if_neg hs] at hrest
      have ih := wellFormed_treeParts children hrest.2
      have hp : p = .tag (.opening n.toList (attrs.map attrOf)) ∨ p ∈ treeParts children ∨
          p = .tag (.closing n.toList) := by simpa [nodeParts, hs] using hp
      rcases hp with rfl | hp | rfl
      · refine ⟨htag.name.1, fun m hm he => hrest.1 ?_, attrs_wellFormed htag.proper⟩
        rwa [← String.toList_inj.1 he]
      · exact ih p hp
      · exact htag.name.1

theorem wellFormed_treeParts : ∀ ns : List Node, ProperAll ns → ∀ p ∈ treeParts ns, p.WellFormed
  | [], _ => by simp [treeParts]
  | n :: ns, h => by
    obtain ⟨h1, h2⟩ := properAll_cons.1 h
    intro p hp
    rcases List.mem_append.1 hp with hp | hp
    · exact wellFormed_nodeParts n h1 p hp
    · exact wellFormed_treeParts ns h2 p hp

end

theorem wellFormed_spans {ps : List (Part Element)} (h : ∀ p ∈ ps, p.WellFormed) :
    WellFormed (spans ps) := by
  intro s hs
  obtain ⟨htag, hafter⟩ := mem_spans hs
  refine ⟨h _ htag, fun c hc => ?_⟩
  obtain ⟨t, ht, hc⟩ := hafter c hc
  exact h _ ht c hc

/-! ### Balance -/

/-- The names that a tag opens; a sealed element opens and closes its own name. -/
def Tag.opened : Tag Element → List (List Char)
  | opening n _ => [n]
  | sealed e => [e.name]
  | _ => []

/-- The names that a tag closes. -/
def Tag.closed : Tag Element → List (List Char)
  | closing n => [n]
  | sealed e => [e.name]
  | _ => []

/-- The names of the elements that have no closing tag. -/
def voidNames : List (List Char) := Inspect.voidElements.map String.toList

/-- As many tags open a name as close it, but void elements are never closed. -/
def Balanced (ts : List (Tag Element)) : Prop :=
  ∀ n, if n ∈ voidNames then (ts.flatMap Tag.closed).count n = 0
    else (ts.flatMap Tag.opened).count n = (ts.flatMap Tag.closed).count n

theorem balanced_nil : Balanced [] := by
  intro n
  split <;> simp

theorem Balanced.append {ts ts' : List (Tag Element)} (h : Balanced ts) (h' : Balanced ts') :
    Balanced (ts ++ ts') := by
  intro n
  have h := h n
  have h' := h' n
  split
  · rename_i hn
    rw [if_pos hn] at h h'
    simp only [List.flatMap_append, List.count_append]
    omega
  · rename_i hn
    rw [if_neg hn] at h h'
    simp only [List.flatMap_append, List.count_append]
    omega

/-- What is between an opening and a closing tag of one name keeps its balance. -/
theorem Balanced.element {ts : List (Tag Element)} (h : Balanced ts) {n : List Char}
    (hn : n ∉ voidNames) (attrs : List Attr) :
    Balanced (.opening n attrs :: (ts ++ [.closing n])) := by
  intro m
  have h := h m
  by_cases hm : m ∈ voidNames
  · have hne : n ≠ m := by
      rintro rfl
      exact hn hm
    rw [if_pos hm] at h ⊢
    simpa [Tag.closed, hne] using h
  · rw [if_neg hm] at h ⊢
    simp only [List.flatMap_cons, List.flatMap_append, Tag.opened, Tag.closed, List.flatMap_nil,
      List.count_append, List.nil_append, List.append_nil, h]
    omega

theorem not_mem_voidNames {n : String} (h : n ∉ Inspect.voidElements) : n.toList ∉ voidNames := by
  intro hm
  obtain ⟨m, hm, he⟩ := List.mem_map.1 hm
  exact h (String.toList_inj.1 he ▸ hm)

mutual

theorem balanced_nodeParts : ∀ n : Node, Proper n → Balanced ((nodeParts n).filterMap Part.tag?)
  | .piece p, _ => by
    rw [nodeParts]
    exact balanced_nil
  | .comment s, _ => by
    intro m
    split <;> simp [nodeParts, Part.tag?, Tag.opened, Tag.closed]
  | .void n attrs, h => by
    have h : VoidTag n attrs := by simpa [Proper] using h
    intro m
    have hn : n.toList ∈ voidNames := List.mem_map.2 ⟨n, h.name, rfl⟩
    split
    · simp [nodeParts, Part.tag?, Tag.closed]
    · rename_i hm
      have hne : n.toList ≠ m := by
        rintro rfl
        exact hm hn
      simp [nodeParts, Part.tag?, Tag.opened, Tag.closed, hne]
  | .element n attrs children, h => by
    obtain ⟨htag, hrest⟩ : PairedTag n attrs ∧ _ := by simpa only [Proper] using h
    by_cases hs : n.toList ∈ sealedNames
    · intro m
      have hvoid := not_mem_voidNames htag.name.2
      split
      · rename_i hm
        have hne : n.toList ≠ m := by
          rintro rfl
          exact hvoid hm
        simp [nodeParts, hs, Part.tag?, Tag.closed, hne]
      · simp [nodeParts, hs, Part.tag?, Tag.opened, Tag.closed]
    · rw [if_neg hs] at hrest
      have ih := balanced_treeParts children hrest.2
      have := ih.element (not_mem_voidNames htag.name.2) (attrs.map attrOf)
      simpa [nodeParts, hs, Part.tag?] using this

theorem balanced_treeParts : ∀ ns : List Node, ProperAll ns →
    Balanced ((treeParts ns).filterMap Part.tag?)
  | [], _ => by simpa [treeParts] using balanced_nil
  | n :: ns, h => by
    obtain ⟨h1, h2⟩ := properAll_cons.1 h
    have := (balanced_nodeParts n h1).append (balanced_treeParts ns h2)
    simpa [treeParts] using this

end

/-! ### Accessibility -/

theorem accessible_of_paired {n : String} (h : n ∉ Inspect.voidElements) (attrs : List Attr) :
    Accessible n.toList attrs := by
  have hne : ∀ m ∈ Inspect.voidElements, n.toList ≠ m.toList := by
    intro m hm he
    exact h (String.toList_inj.1 he ▸ hm)
  exact ⟨fun hn => absurd hn (hne "img" (by decide)), fun hn => absurd hn (hne "input" (by decide))⟩

mutual

theorem accessible_nodeParts : ∀ n : Node, Proper n →
    ∀ m attrs, .tag (.opening m attrs) ∈ nodeParts n → Accessible m attrs
  | .piece p, _ => by simp [nodeParts]
  | .comment s, _ => by simp [nodeParts]
  | .void n attrs, h => by
    have h : VoidTag n attrs := by simpa [Proper] using h
    intro m as hm
    obtain ⟨rfl, rfl⟩ : m = n.toList ∧ as = attrs.map attrOf := by simpa [nodeParts] using hm
    exact h.accessible
  | .element n attrs children, h => by
    obtain ⟨htag, hrest⟩ : PairedTag n attrs ∧ _ := by simpa only [Proper] using h
    intro m as hm
    by_cases hs : n.toList ∈ sealedNames
    · simp [nodeParts, hs] at hm
    · rw [if_neg hs] at hrest
      have hm : (m = n.toList ∧ as = attrs.map attrOf) ∨ .tag (.opening m as) ∈ treeParts children := by
        simpa [nodeParts, hs] using hm
      rcases hm with ⟨rfl, rfl⟩ | hm
      · exact accessible_of_paired htag.name.2 _
      · exact accessible_treeParts children hrest.2 m as hm

theorem accessible_treeParts : ∀ ns : List Node, ProperAll ns →
    ∀ m attrs, .tag (.opening m attrs) ∈ treeParts ns → Accessible m attrs
  | [], _ => by simp [treeParts]
  | n :: ns, h => by
    obtain ⟨h1, h2⟩ := properAll_cons.1 h
    intro m attrs hm
    rcases List.mem_append.1 hm with hm | hm
    · exact accessible_nodeParts n h1 m attrs hm
    · exact accessible_treeParts ns h2 m attrs hm

end

end PagePress.Markup
