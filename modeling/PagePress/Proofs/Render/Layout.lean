import PagePress.Proofs.Compile
import PagePress.Proofs.Markup.Reference

/-!
The layout of sections. The text of a section is a layout with holes, and each hole is filled with
the escaped form of a text of the author (`inserted`). Sections that are alike in their raw values
and their shape have one layout in common, whatever their texts are, so their fragments have the
same marks of tags in the same order (`fragment_alike`).
-/

namespace PagePress

open Render

/-! ### Sections of one shape -/

/-- Heroes that differ in their texts only. -/
structure Hero.Alike (h h' : Hero) : Prop where
  backgroundType : h.backgroundType = h'.backgroundType
  backgroundColor : h.backgroundColor = h'.backgroundColor
  backgroundImage : h.backgroundImage = h'.backgroundImage
  backgroundGradient : h.backgroundGradient = h'.backgroundGradient
  textColor : h.textColor = h'.textColor
  buttonColor : h.buttonColor = h'.buttonColor
  alignment : h.alignment = h'.alignment
  button : h.buttonText.isEmpty = h'.buttonText.isEmpty

/-- Blocks of content that differ in their texts only, with as many paragraphs each. -/
structure Content.Alike (b b' : Content) : Prop where
  backgroundColor : b.backgroundColor = b'.backgroundColor
  textColor : b.textColor = b'.textColor
  padding : b.padding = b'.padding
  paragraphs : (paragraphs b.content.toList).length = (paragraphs b'.content.toList).length
  image : (given? b.imageUrl).isSome = (given? b'.imageUrl).isSome
  position : (given? b.imageUrl).isSome = true → b.imagePosition = b'.imagePosition

/-- Calls to action that differ in their texts only, with the same inputs if there are any. -/
structure CallToAction.Alike (a a' : CallToAction) : Prop where
  backgroundColor : a.backgroundColor = a'.backgroundColor
  textColor : a.textColor = a'.textColor
  buttonColor : a.buttonColor = a'.buttonColor
  formEnabled : a.formEnabled = a'.formEnabled
  fields : a.formEnabled = true → a.formFields.enabled = a'.formFields.enabled

/-- Blocks of one known kind that agree on their raw values and their shape. -/
def Block.Alike : Block → Block → Prop
  | .hero h, .hero h' => h.Alike h'
  | .content b, .content b' => b.Alike b'
  | .callToAction a, .callToAction a' => a.Alike a'
  | _, _ => False

namespace Markup

open Text Html

/-! ### Layouts -/

/-- A layout with its holes filled in order. -/
def fill : List (Option (List Char)) → List (List Char) → List Char
  | [], _ => []
  | some t :: l, xs => t ++ fill l xs
  | none :: l, x :: xs => x ++ fill l xs
  | none :: l, [] => fill l []

/-- The marks of tags in a text. -/
def marks (s : List Char) : List Char := s.filter fun c => ['<', '>', '"'].contains c

theorem marks_append (s t : List Char) : marks (s ++ t) = marks s ++ marks t := List.filter_append ..

/-- Texts without marks leave the marks of a layout as they are. -/
theorem marks_fill {l : List (Option (List Char))} {xs : List (List Char)} (h : ∀ x ∈ xs, marks x = []) :
    marks (fill l xs) = marks (fill l []) := by
  induction l generalizing xs with
  | nil => rfl
  | cons t l ih =>
    cases t with
    | some t => rw [fill, fill, marks_append, marks_append, ih h]
    | none =>
      cases xs with
      | nil => rfl
      | cons x xs =>
        have hx : marks x = [] := h x (by simp)
        rw [fill, fill, marks_append, hx, ih fun y hy => h y (by simp [hy])]
        rfl

theorem marks_escape (s : List Char) : marks (escape s) = [] := by
  rw [marks, List.filter_eq_nil_iff]
  intro c hc hm
  have hvalue := (escape_marks c hc).1
  simp only [List.contains_eq_mem, List.mem_cons, List.not_mem_nil, or_false, decide_eq_true_eq] at hm
  rcases hm with rfl | rfl | rfl <;> exact absurd hvalue (by decide)

/-! ### Pieces of a tree -/

def attrPieces (a : Attribute) : List Piece :=
  .fixed (" " ++ a.name) ::
    match a.value with
    | none => []
    | some ps => .fixed "=\"" :: (ps ++ [.fixed "\""])

def openingPieces (n : String) (attrs : List Attribute) : List Piece :=
  .fixed ("<" ++ n) :: (attrs.flatMap attrPieces ++ [.fixed ">"])

mutual

/-- The pieces that a tree is written with. -/
def nodePieces : Node → List Piece
  | .piece p => [p]
  | .comment s => [.fixed ("<!--" ++ s ++ "-->")]
  | .void n attrs => openingPieces n attrs
  | .element n attrs children =>
    openingPieces n attrs ++ (treePieces children ++ [.fixed ("</" ++ n ++ ">")])

/-- The pieces that some trees are written with. -/
def treePieces : List Node → List Piece
  | [] => []
  | n :: ns => nodePieces n ++ treePieces ns

end

@[simp] theorem nodePieces_line (i : Nat) :
    nodePieces (.line i) = [.fixed (.ofList ('\n' :: List.replicate i ' '))] := rfl

@[simp] theorem nodePieces_escaped (s : String) : nodePieces (.escaped s) = [.escaped s] := rfl

theorem textAll_cons (p : Piece) (ps : List Piece) :
    Piece.textAll (p :: ps) = p.text ++ Piece.textAll ps := rfl

theorem piecesText_append (ps qs : List Piece) :
    Piece.textAll (ps ++ qs) = Piece.textAll ps ++ Piece.textAll qs := List.flatMap_append ..

theorem textAll_attrPieces (a : Attribute) : Piece.textAll (attrPieces a) = a.text := by
  obtain ⟨n, v⟩ := a
  cases v <;> simp [attrPieces, Attribute.text, Piece.text, Piece.textAll]

theorem textAll_openingPieces (n : String) (attrs : List Attribute) :
    Piece.textAll (openingPieces n attrs) = Node.openingText n attrs := by
  have hattrs : Piece.textAll (attrs.flatMap attrPieces) = attrs.flatMap Attribute.text := by
    induction attrs with
    | nil => rfl
    | cons a attrs ih => rw [List.flatMap_cons, piecesText_append, textAll_attrPieces, ih, List.flatMap_cons]
  rw [openingPieces, textAll_cons, piecesText_append, hattrs]
  simp [Node.openingText, Piece.text, Piece.textAll]

mutual

theorem textAll_nodePieces : ∀ n : Node, Piece.textAll (nodePieces n) = n.text
  | .piece p => by simp [nodePieces, Piece.textAll, Node.text]
  | .comment s => by simp [nodePieces, Piece.textAll, Piece.text, Node.text]
  | .void n attrs => by rw [nodePieces, textAll_openingPieces, Node.text]
  | .element n attrs children => by
    rw [nodePieces, piecesText_append, piecesText_append, textAll_openingPieces, textAll_treePieces children,
      Node.text]
    simp [Node.closingText, Piece.textAll, Piece.text]

theorem textAll_treePieces : ∀ ns : List Node, Piece.textAll (treePieces ns) = Node.textAll ns
  | [] => rfl
  | n :: ns => by
    rw [treePieces, piecesText_append, textAll_nodePieces n, textAll_treePieces ns, Node.textAll]

end

/-- A piece of a layout: a hole where a text of the author is inserted. -/
def Piece.hole : Piece → Option (List Char)
  | .escaped _ => none
  | p => some p.text

/-- The text of the author that a piece is, if it is one. -/
def Piece.authors : Piece → List String
  | .escaped s => [s]
  | _ => []

/-- Pieces are a layout filled with the escaped texts of the author. -/
theorem fill_pieces (ps : List Piece) :
    fill (ps.map Piece.hole) ((ps.flatMap Piece.authors).map fun s => escape s.toList) =
      Piece.textAll ps := by
  induction ps with
  | nil => rfl
  | cons p ps ih =>
    rw [textAll_cons, ← ih]
    cases p <;> rfl

/-- The layout of some trees. -/
def layout (ns : List Node) : List (Option (List Char)) := (treePieces ns).map Piece.hole

/-- The texts of the author in some trees, in order. -/
def authors (ns : List Node) : List String := (treePieces ns).flatMap Piece.authors

theorem treePieces_append (ns ms : List Node) : treePieces (ns ++ ms) = treePieces ns ++ treePieces ms := by
  induction ns with
  | nil => rfl
  | cons n ns ih => simp [treePieces, ih]

theorem layout_append (ns ms : List Node) : layout (ns ++ ms) = layout ns ++ layout ms := by
  simp [layout, treePieces_append]

theorem authors_append (ns ms : List Node) : authors (ns ++ ms) = authors ns ++ authors ms := by
  simp [authors, treePieces_append]

/-! ### The layout of a section -/

theorem layout_hero {h h' : Hero} (hh : h.Alike h') {c c' : Context} (hc : c.animate = c'.animate)
    (id id' : String) : layout [hero id h c] = layout [hero id' h' c'] := by
  have hbackground : background h = background h' := by
    rw [background, background, hh.backgroundType, hh.backgroundGradient, hh.backgroundImage,
      hh.backgroundColor]
  have hbutton := hh.button
  rw [hero, hero, hbackground]
  obtain ⟨style, overlay⟩ := background h'
  cases hempty : h'.buttonText.isEmpty <;> rw [hempty] at hbutton <;> cases overlay <;>
    simp [layout, treePieces, nodePieces, openingPieces, attrPieces, Attribute.escaped, Attribute.fixed,
      Attribute.style, buttonStyle, container, Piece.hole, hbutton, hc,
      hh.textColor, hh.buttonColor, hh.alignment]

/-- The layout of a paragraph on a line of its own. -/
def paragraphLayout : List (Option (List Char)) :=
  layout [.line 8, .element "p" [] [.escaped ""]]

theorem layout_paragraphs (ps : List (List Char)) :
    layout (ps.flatMap fun p => [.line 8, .element "p" [] [.escaped (.ofList p)]]) =
      (List.replicate ps.length paragraphLayout).flatten := by
  induction ps with
  | nil => rfl
  | cons p ps ih =>
    rw [List.flatMap_cons, layout_append, ih, List.length_cons, List.replicate_succ, List.flatten_cons]
    rfl

theorem layout_contentText {b b' : Content} (hb : b.Alike b') :
    layout (contentText b) = layout (contentText b') := by
  have hparagraphs := (layout_paragraphs (paragraphs b.content.toList)).trans
    (hb.paragraphs ▸ (layout_paragraphs (paragraphs b'.content.toList)).symm)
  rw [layout, layout] at hparagraphs
  simp [layout, contentText, treePieces, treePieces_append, nodePieces, openingPieces, attrPieces,
    Attribute.fixed, Attribute.style, Piece.hole, hparagraphs, hb.textColor]

theorem layout_contentImage (url url' title title' : String) :
    layout (contentImage url title) = layout (contentImage url' title') := rfl

theorem layout_contentParts {b b' : Content} (hb : b.Alike b') :
    layout (contentParts b) = layout (contentParts b') ∧ contentClasses b = contentClasses b' := by
  have htext := layout_contentText hb
  have himage := hb.image
  have hposition := hb.position
  unfold contentParts contentClasses
  cases hu : given? b.imageUrl with
  | none =>
    rw [hu] at himage
    cases hu' : given? b'.imageUrl with
    | none => exact ⟨htext, rfl⟩
    | some url' => simp [hu'] at himage
  | some url =>
    rw [hu] at himage hposition
    cases hu' : given? b'.imageUrl with
    | none => simp [hu'] at himage
    | some url' =>
      rw [hposition rfl]
      refine ⟨?_, rfl⟩
      have hurl := layout_contentImage url url' b.title b'.title
      cases b'.imagePosition.leads <;> simp [layout_append, htext, hurl]

theorem layout_content {b b' : Content} (hb : b.Alike b') {c c' : Context} (hc : c.animate = c'.animate)
    (id id' : String) : layout [content id b c] = layout [content id' b' c'] := by
  obtain ⟨hparts, hclasses⟩ := layout_contentParts hb
  rw [layout, layout] at hparts
  simp [layout, content, container, treePieces, treePieces_append, nodePieces, openingPieces, attrPieces,
    Attribute.escaped, Attribute.fixed, Attribute.style, Piece.hole, hparts, hclasses, hc, hb.backgroundColor, hb.padding]

theorem layout_fields (id id' : String) (fs : List FormField) :
    layout (fs.flatMap (input id)) = layout (fs.flatMap (input id')) := by
  induction fs with
  | nil => rfl
  | cons f fs ih =>
    rw [List.flatMap_cons, List.flatMap_cons, layout_append, layout_append, ih]
    rfl

theorem layout_form {a a' : CallToAction} (ha : a.Alike a') (he : a.formEnabled = true) (c c' : Context)
    (id id' : String) : layout [form id a c] = layout [form id' a' c'] := by
  have hfields : layout (a.formFields.enabled.flatMap (input (formId id))) =
      layout (a'.formFields.enabled.flatMap (input (formId id'))) := by
    rw [ha.fields he]
    exact layout_fields _ _ _
  rw [layout, layout] at hfields
  simp [layout, form, treePieces, treePieces_append, nodePieces, openingPieces, attrPieces,
    Attribute.escaped, Attribute.fixed, buttonStyle, Piece.hole, hfields, ha.buttonColor]

theorem layout_callToAction {a a' : CallToAction} (ha : a.Alike a') {c c' : Context}
    (hc : c.animate = c'.animate) (id id' : String) :
    layout [callToAction id a c] = layout [callToAction id' a' c'] := by
  have hinner : layout [if a.formEnabled then form id a c else plainButton a] =
      layout [if a'.formEnabled then form id' a' c' else plainButton a'] := by
    have hform := ha.formEnabled
    cases he : a.formEnabled with
    | true =>
      rw [he] at hform
      rw [← hform]
      exact layout_form ha he c c' id id'
    | false =>
      rw [he] at hform
      rw [← hform]
      simp [layout, plainButton, treePieces, nodePieces, openingPieces, attrPieces, Attribute.fixed,
        buttonStyle, Piece.hole, ha.buttonColor]
  simp only [layout, treePieces, List.append_nil] at hinner
  simp [layout, callToAction, container, treePieces, nodePieces, openingPieces, attrPieces,
    Attribute.escaped, Attribute.fixed, Attribute.style, Piece.hole, hinner, hc,
    ha.backgroundColor, ha.textColor]

theorem layout_node {s s' : Section} (h : s.block.Alike s'.block) {c c' : Context}
    (hc : c.animate = c'.animate) :
    ∃ n n', node? c s = some n ∧ node? c' s' = some n' ∧ layout [n] = layout [n'] := by
  obtain ⟨id, order, block⟩ := s
  obtain ⟨id', order', block'⟩ := s'
  cases block <;> cases block' <;> try exact h.elim
  case hero.hero => exact ⟨_, _, rfl, rfl, layout_hero h hc id id'⟩
  case content.content => exact ⟨_, _, rfl, rfl, layout_content h hc id id'⟩
  case callToAction.callToAction => exact ⟨_, _, rfl, rfl, layout_callToAction h hc id id'⟩

/-! ### The texts of a section -/

/-- The texts of the author that a section shows, in the order of its layout. -/
def inserted (c : Context) (s : Section) : List String :=
  match s.block with
  | .hero h =>
    [s.id, s.id, h.headline, h.subheadline] ++
      if h.buttonText.isEmpty then [] else [buttonTarget h.buttonAction c, h.buttonText]
  | .content b =>
    let texts := b.title :: (paragraphs b.content.toList).map .ofList
    [s.id, s.id] ++
      match given? b.imageUrl with
      | none => texts
      | some url => if b.imagePosition.leads then [url, b.title] ++ texts else texts ++ [url, b.title]
  | .callToAction a =>
    [s.id, s.id, a.title, a.description] ++
      if a.formEnabled then
        [formId s.id, c.form.name, c.pageIdentifier, a.recipientEmail] ++
          a.formFields.enabled.map (fun _ => formId s.id) ++ [a.buttonText, messageId s.id]
      else [a.buttonText]
  | .unknown _ _ => []

theorem authors_hero (id : String) (order : Int) (h : Hero) (c : Context) :
    authors [hero id h c] = inserted c ⟨id, order, .hero h⟩ := by
  have hbackground : ∃ n ps, (background h).1 = ⟨n, some ps⟩ ∧ ps.flatMap Piece.authors = [] := by
    unfold background
    split <;> exact ⟨_, _, rfl, rfl⟩
  simp only [hero, inserted]
  generalize background h = look, h.buttonText.isEmpty = plain at hbackground ⊢
  obtain ⟨style, overlay⟩ := look
  obtain ⟨n, ps, rfl, hps⟩ := hbackground
  cases plain <;> cases overlay <;>
    simp [authors, treePieces, nodePieces, openingPieces, attrPieces, Attribute.escaped, Attribute.fixed,
      Attribute.style, buttonStyle, container, Piece.authors, hps]

theorem authors_paragraphs (ps : List (List Char)) :
    authors (ps.flatMap fun p => [.line 8, .element "p" [] [.escaped (.ofList p)]]) = ps.map .ofList := by
  induction ps with
  | nil => rfl
  | cons p ps ih =>
    rw [List.flatMap_cons, authors_append, ih, List.map_cons]
    rfl

theorem authors_contentText (b : Content) :
    authors (contentText b) = b.title :: (paragraphs b.content.toList).map .ofList := by
  have hparagraphs := authors_paragraphs (paragraphs b.content.toList)
  rw [authors] at hparagraphs
  simp [authors, contentText, treePieces, treePieces_append, nodePieces, openingPieces, attrPieces,
    Attribute.fixed, Attribute.style, Piece.authors, hparagraphs]

theorem authors_contentImage (url title : String) : authors (contentImage url title) = [url, title] := rfl

theorem authors_content (id : String) (order : Int) (b : Content) (c : Context) :
    authors [content id b c] = inserted c ⟨id, order, .content b⟩ := by
  have hparts : authors (contentParts b) =
      let texts := b.title :: (paragraphs b.content.toList).map .ofList
      match given? b.imageUrl with
      | none => texts
      | some url => if b.imagePosition.leads then [url, b.title] ++ texts else texts ++ [url, b.title] := by
    unfold contentParts
    cases given? b.imageUrl with
    | none => exact authors_contentText b
    | some url =>
      cases b.imagePosition.leads <;>
        simp [authors_append, authors_contentText, authors_contentImage]
  rw [inserted]
  simp only
  rw [← hparts]
  simp [authors, content, container, treePieces, treePieces_append, nodePieces, openingPieces, attrPieces,
    Attribute.escaped, Attribute.fixed, Attribute.style, Piece.authors]

theorem authors_fields (id : String) (fs : List FormField) :
    authors (fs.flatMap (input id)) = fs.map fun _ => id := by
  induction fs with
  | nil => rfl
  | cons f fs ih =>
    rw [List.flatMap_cons, authors_append, ih, List.map_cons]
    rfl

theorem authors_form (id : String) (a : CallToAction) (c : Context) :
    authors [form id a c] = [formId id, c.form.name, c.pageIdentifier, a.recipientEmail] ++
      a.formFields.enabled.map (fun _ => formId id) ++ [a.buttonText, messageId id] := by
  have hfields := authors_fields (formId id) a.formFields.enabled
  rw [authors] at hfields
  simp [authors, form, treePieces, treePieces_append, nodePieces, openingPieces, attrPieces,
    Attribute.escaped, Attribute.fixed, buttonStyle, Piece.authors, hfields]

theorem authors_callToAction (id : String) (order : Int) (a : CallToAction) (c : Context) :
    authors [callToAction id a c] = inserted c ⟨id, order, .callToAction a⟩ := by
  have hinner : authors [if a.formEnabled then form id a c else plainButton a] =
      if a.formEnabled then
        [formId id, c.form.name, c.pageIdentifier, a.recipientEmail] ++
          a.formFields.enabled.map (fun _ => formId id) ++ [a.buttonText, messageId id]
      else [a.buttonText] := by
    cases a.formEnabled with
    | true => exact authors_form id a c
    | false => rfl
  rw [inserted]
  simp only
  rw [← hinner]
  simp [authors, callToAction, container, treePieces, nodePieces, openingPieces, attrPieces,
    Attribute.escaped, Attribute.fixed, Attribute.style, Piece.authors]

theorem authors_node {c : Context} {s : Section} {n : Node} (h : node? c s = some n) :
    authors [n] = inserted c s := by
  obtain ⟨id, order, block⟩ := s
  cases block <;> simp only [node?, Option.some.injEq, reduceCtorEq] at h <;> subst h
  case hero b => exact authors_hero id order b c
  case content b => exact authors_content id order b c
  case callToAction b => exact authors_callToAction id order b c

/-! ### Fragments -/

/-- The number of holes of a layout. -/
def holes (l : List (Option (List Char))) : Nat := l.countP Option.isNone

theorem holes_layout (ns : List Node) : holes (layout ns) = (authors ns).length := by
  rw [layout, authors]
  induction treePieces ns with
  | nil => rfl
  | cons p ps ih => cases p <;> simp_all [holes, Piece.hole, Piece.authors]

/-- The values that the holes of a section are filled with. -/
def fillings (c : Context) (s : Section) : List (List Char) :=
  (inserted c s).map fun t => escape t.toList

theorem fragment_eq_fill {c : Context} {s : Section} {n : Node} (h : node? c s = some n) :
    fragment c s = fill (layout [n]) (fillings c s) := by
  have htext : fragment c s = Node.textAll [n] := by
    rw [fragment, h]
    simp [Node.textAll]
  rw [htext, ← textAll_treePieces, ← fill_pieces, fillings, ← authors_node h]
  rfl

theorem decode_fillings (c : Context) (s : Section) :
    (fillings c s).map decode = (inserted c s).map String.toList := by
  rw [fillings, List.map_map]
  exact List.map_congr_left fun t _ => decode_escape t.toList

/-- Sections that are alike are one layout, filled with values that are read as the texts of each,
and whatever the texts are, the marks of tags are those of the layout. -/
theorem fragment_alike {s s' : Section} (h : s.block.Alike s'.block) {c c' : Context}
    (hc : c.animate = c'.animate) :
    marks (fragment c s) = marks (fragment c' s') ∧
      ∃ l texts texts', fragment c s = fill l texts ∧ fragment c' s' = fill l texts' ∧
        texts.length = holes l ∧ texts'.length = holes l ∧
        texts.map decode = (inserted c s).map String.toList ∧
        texts'.map decode = (inserted c' s').map String.toList := by
  obtain ⟨n, n', hn, hn', hl⟩ := layout_node h hc
  have hfill := fragment_eq_fill hn
  have hfill' := fragment_eq_fill hn'
  have hholes : (fillings c s).length = holes (layout [n]) := by
    rw [holes_layout, authors_node hn, fillings, List.length_map]
  have hholes' : (fillings c' s').length = holes (layout [n]) := by
    rw [hl, holes_layout, authors_node hn', fillings, List.length_map]
  have hmarks : ∀ (c : Context) (s : Section), ∀ x ∈ fillings c s, marks x = [] := by
    intro c s x hx
    obtain ⟨t, -, rfl⟩ := List.mem_map.1 hx
    exact marks_escape _
  rw [← hl] at hfill'
  refine ⟨?_, layout [n], fillings c s, fillings c' s', hfill, hfill', hholes, hholes',
    decode_fillings c s, decode_fillings c' s'⟩
  rw [hfill, hfill', marks_fill (hmarks c s), marks_fill (hmarks c' s')]

/-- A contact form with plain texts. -/
def plainForm : Section where
  id := "contact"
  order := 0
  block := .callToAction { title := "Write to us", formEnabled := true }

/-- A contact form of the same shape, whose texts look like markup. -/
def loudForm : Section where
  id := "\"><b>"
  order := 7
  block := .callToAction
    { title := "</h2>", description := "a & b", formEnabled := true, recipientEmail := "<a@b>" }

/-- The two contact forms have the same marks of tags. -/
theorem fragment_plainForm_loudForm : plainForm.block.Alike loudForm.block ∧
    marks (fragment (Compile.context {} sampleClock samplePage []) plainForm) =
      marks (fragment (Compile.context {} sampleClock samplePage [loudForm]) loudForm) := by
  have halike : plainForm.block.Alike loudForm.block :=
    { backgroundColor := rfl, textColor := rfl, buttonColor := rfl, formEnabled := rfl, fields := fun _ => rfl }
  exact ⟨halike, (fragment_alike halike rfl).1⟩

end Markup

end PagePress
