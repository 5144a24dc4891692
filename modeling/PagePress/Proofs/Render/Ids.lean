import PagePress.Proofs.Compile.Forms
import PagePress.Proofs.Compile.Revised
import PagePress.Proofs.Render.Legible

/-!
The ids of elements. A section gives out its own id, and with a form the ids of the form, of its
inputs and of the place where it reports, all made from its own (`ids_body`).
-/

namespace PagePress

open Render

namespace Section

/-- A text with the name of an input behind it. -/
def withField (id : String) (f : FormField) : String := id ++ "-" ++ (inputSpec f).name

/-- The id of an input of the form of a section. -/
def inputId (id : String) (f : FormField) : String := withField (formId id) f

/-- The ids that the form of a section gives out. -/
def formIds (s : Section) : List String :=
  match s.form? with
  | none => []
  | some a => formId s.id :: (a.formFields.enabled.map (inputId s.id) ++ [messageId s.id])

/-- The ids that a section gives out. -/
def domIds (s : Section) : List String := if s.isKnown then s.id :: s.formIds else []

end Section

namespace Markup

open Text Html

/-! ### Ids of trees -/

/-- The id of a tag as a reader understands it. -/
def Tag.id? : Tag Element → Option (List Char)
  | opening _ attrs => idOf? attrs
  | _ => none

def Part.id? : Part Element → Option (List Char)
  | text _ => none
  | tag t => t.id?

/-- The ids of the elements that a reader finds in a document, in order. -/
def allIds (html : List Char) : List (List Char) := ((read html).map Span.tag).filterMap Tag.id?

/-- The tags with an id that a reader finds in a document. -/
def withId (id : String) (html : List Char) : List (Tag Element) :=
  ((read html).map Span.tag).filter fun t => t.id? = some id.toList

/-- The ids in some trees, in order. -/
def treeIds (ns : List Node) : List (List Char) := (treeParts ns).filterMap Part.id?

theorem filterMap_spans (ps : List (Part Element)) :
    ((spans ps).map Span.tag).filterMap Tag.id? = ps.filterMap Part.id? := by
  induction ps with
  | nil => rfl
  | cons p ps ih =>
    cases p with
    | text s => exact ih
    | tag t => simp only [spans_tag, List.map_cons, List.filterMap_cons, ih, Part.id?]

/-- The id among some attributes. -/
def attrId? (as : List Attribute) : Option (List Char) := idOf? (as.map attrOf)

@[simp] theorem attrId?_nil : attrId? [] = none := rfl

@[simp] theorem attrId?_cons (a : Attribute) (as : List Attribute) :
    attrId? (a :: as) =
      if a.name = "id" then a.value.map fun v => decode (Piece.textAll v) else attrId? as := by
  by_cases h : a.name = "id"
  · simp [attrId?, idOf?, attrOf, h, Function.comp_def]
  · have hne : a.name.toList ≠ "id".toList := fun he => h (String.toList_inj.1 he)
    have hb : ((attrOf a).name == "id".toList) = false := by simpa [attrOf] using hne
    rw [if_neg h, attrId?, idOf?, List.map_cons, List.find?_cons, hb]
    rfl

@[simp] theorem decode_escaped (n v : String) :
    (Attribute.escaped n v).value.map (fun v => decode (Piece.textAll v)) = some v.toList := by
  simp [Attribute.escaped, Piece.textAll, Piece.text, decode_escape]

theorem attrId?_escaped (s : String) (as : List Attribute) :
    attrId? (.escaped "id" s :: as) = some s.toList := idOf?_escaped s as

@[simp] theorem treeIds_nil : treeIds [] = [] := rfl

@[simp] theorem treeIds_append (ns ms : List Node) : treeIds (ns ++ ms) = treeIds ns ++ treeIds ms := by
  simp [treeIds, treeParts_append]

@[simp] theorem treeIds_piece (p : Piece) (ns : List Node) : treeIds (.piece p :: ns) = treeIds ns := rfl

@[simp] theorem treeIds_line (i : Nat) (ns : List Node) : treeIds (.line i :: ns) = treeIds ns := rfl

@[simp] theorem treeIds_escaped (s : String) (ns : List Node) : treeIds (.escaped s :: ns) = treeIds ns := rfl

@[simp] theorem treeIds_void (n : String) (attrs : List Attribute) (ns : List Node) :
    treeIds (.void n attrs :: ns) = (attrId? attrs).toList ++ treeIds ns := by
  rw [treeIds, treeParts, nodeParts, List.singleton_append, List.filterMap_cons, Part.id?, Tag.id?,
    ← attrId?]
  cases attrId? attrs <;> rfl

@[simp] theorem treeIds_element {n : String} (hn : isPlain n = true) (attrs : List Attribute)
    (children ns : List Node) : treeIds (.element n attrs children :: ns) =
      (attrId? attrs).toList ++ (treeIds children ++ treeIds ns) := by
  rw [treeIds, treeParts, nodeParts_element (not_mem_sealedNames hn), List.filterMap_append,
    List.filterMap_cons, Part.id?, Tag.id?, List.filterMap_append, ← attrId?]
  cases attrId? attrs <;> simp [treeIds, Part.id?, Tag.id?]

/-! ### Ids of sections -/

theorem treeIds_container {id classes kind : String} {animate : Bool} {style : Attribute}
    {children : List Node} :
    treeIds [container id classes kind animate style children] = id.toList :: treeIds children := by
  have hn : isPlain "section" = true := by decide
  rw [container, treeIds_element hn, attrId?_escaped]
  simp

theorem treeIds_hero (id : String) (h : Hero) (c : Context) : treeIds [hero id h c] = [id.toList] := by
  rw [hero]
  obtain ⟨style, overlay⟩ := background h
  dsimp only
  rw [treeIds_container]
  cases overlay <;> cases h.buttonText.isEmpty <;> simp +decide

theorem treeIds_content (id : String) (b : Content) (c : Context) :
    treeIds [content id b c] = [id.toList] := by
  have himage : ∀ url title, treeIds (contentImage url title) = [] := by
    simp +decide [contentImage]
  have hp : ∀ ps : List (List Char), treeIds (ps.flatMap
      fun p => [Node.line 8, Node.element "p" [] [.escaped (.ofList p)]]) = [] := by
    intro ps
    induction ps with
    | nil => rfl
    | cons p ps ih => simp +decide [ih]
  have htext : treeIds (contentText b) = [] := by
    simp +decide [contentText, hp]
  have hparts : treeIds (contentParts b) = [] := by
    unfold contentParts
    split
    · exact htext
    · split <;> simp [himage, htext]
  rw [content, treeIds_container]
  simp +decide [hparts]

theorem decode_inputId (id : String) (f : FormField) :
    decode (Piece.textAll [.escaped (formId id), .fixed ("-" ++ (inputSpec f).name)]) =
      (Section.inputId id f).toList := by
  have hsuffix : escape ("-" ++ (inputSpec f).name).toList = ("-" ++ (inputSpec f).name).toList := by
    cases f <;> decide
  have htext : Piece.textAll [.escaped (formId id), .fixed ("-" ++ (inputSpec f).name)] =
      escape ((formId id).toList ++ ("-" ++ (inputSpec f).name).toList) := by
    rw [escape, List.flatMap_append, ← escape, ← escape, hsuffix]
    simp [Piece.textAll, Piece.text]
  rw [htext, decode_escape, Section.inputId, Section.withField]
  simp

theorem treeIds_input (id : String) (f : FormField) :
    treeIds (input (formId id) f) = [(Section.inputId id f).toList] := by
  simp +decide [input, decode_inputId]

theorem treeIds_fields (id : String) (fs : List FormField) :
    treeIds (fs.flatMap (input (formId id))) = fs.map fun f => (Section.inputId id f).toList := by
  induction fs with
  | nil => rfl
  | cons f fs ih => simp [treeIds_input, ih]

theorem treeIds_form (id : String) (a : CallToAction) (c : Context) :
    treeIds [form id a c] = (formId id).toList ::
      (a.formFields.enabled.map (fun f => (Section.inputId id f).toList) ++ [(messageId id).toList]) := by
  have hn : isPlain "form" = true := by decide
  rw [form, treeIds_element hn, attrId?_escaped]
  simp +decide [treeIds_fields]

theorem treeIds_callToAction (id : String) (a : CallToAction) (c : Context) :
    treeIds [callToAction id a c] =
      id.toList :: if a.formEnabled then treeIds [form id a c] else [] := by
  have hplain : treeIds [plainButton a, .line 2] = [] := by simp +decide [plainButton]
  have hform : treeIds [form id a c, .line 2] = treeIds [form id a c] := by
    simpa using treeIds_append [form id a c] [.line 2]
  rw [callToAction, treeIds_container]
  cases a.formEnabled
  · simp +decide [hplain]
  · simp +decide [hform]

/-- The ids in the tree of a section are those that it gives out. -/
theorem treeIds_node? {c : Context} {s : Section} {n : Node} (h : node? c s = some n) :
    treeIds [n] = s.domIds.map String.toList := by
  obtain ⟨id, order, block⟩ := s
  cases block with
  | hero b =>
    obtain rfl := Option.some.inj h
    exact treeIds_hero id b c
  | content b =>
    obtain rfl := Option.some.inj h
    exact treeIds_content id b c
  | callToAction a =>
    obtain rfl := Option.some.inj h
    rw [treeIds_callToAction, treeIds_form]
    cases ha : a.formEnabled <;> simp [Section.domIds, Section.isKnown, Section.formIds, Section.form?, ha]
  | unknown kind data => cases h

theorem treeIds_bodyTrees (c : Context) (sections : List Section) :
    treeIds (bodyTrees c sections) = (sections.flatMap Section.domIds).map String.toList := by
  rw [of_bodyTrees treeIds_nil treeIds_append rfl]
  induction sections with
  | nil => rfl
  | cons s sections ih =>
    rw [List.flatMap_cons, List.map_append, ← ih]
    cases hs : node? c s with
    | none =>
      have hknown : s.isKnown = false := by
        obtain ⟨id, order, block⟩ := s
        cases block <;> first | rfl | cases hs
      rw [List.filterMap_cons_none hs]
      simp [Section.domIds, hknown]
    | some n =>
      rw [List.filterMap_cons_some hs, List.flatMap_cons, treeIds_node? hs]

/-- The ids that a reader finds in the text of some sections are those that the sections give out,
in order. -/
theorem ids_body {c : Context} {sections : List Section}
    (h : ∀ s ∈ sections, ∀ v ∈ rawValues s.block, '"' ∉ v.toList) :
    allIds (Render.body c sections) = (sections.flatMap Section.domIds).map String.toList := by
  rw [allIds, read_body h, filterMap_spans, ← treeIds, treeIds_bodyTrees]

end Markup

end PagePress
