import PagePress.Html.Node
import PagePress.Paragraph
import PagePress.Render.Context

/-!
Sections as parts of a document. The texts of an author are written as text wherever they stand;
colours, gradients and background images go into `style` attributes as they are.
-/

namespace PagePress.Render

open Html

/-- The container of a section, with its classes, its style and what it holds. -/
def container (id classes kind : String) (animate : Bool) (style : Attribute)
    (children : List Node) : Node :=
  .element "section"
    [.escaped "id" id,
      .fixed "class" (classes ++ if animate then " animate-fade-in" else ""),
      style,
      .escaped "data-section-id" id,
      .fixed "data-section-kind" kind]
    children

/-- The style of a button: a colour of the author behind white letters. -/
def buttonStyle (color : String) : Attribute :=
  ⟨"style", some [.fixed "background-color: ", .raw color, .fixed "; color: #ffffff;"]⟩

/-! ### Hero -/

/-- What lies behind a hero, and whether it needs to be darkened. A gradient or an image that is
not given leaves the colour. -/
def background (h : Hero) : Attribute × Bool :=
  match h.backgroundType, given? h.backgroundGradient, given? h.backgroundImage with
  | .gradient, some gradient, _ => (.style "background" gradient, false)
  | .image, _, some image =>
    (⟨"style", some [.fixed "background-image: url('", .raw image,
      .fixed "'); background-size: cover; background-position: center;"]⟩, true)
  | _, _, _ => (.style "background-color" h.backgroundColor, false)

/-- Where the button of a hero leads: to the first section of the wanted kind, if there is one. -/
def buttonTarget (action : ButtonAction) (c : Context) : String :=
  let target := match action with
    | .scroll => c.firstContent
    | .form => c.firstCallToAction
    | .link => none
  "#" ++ target.getD ""

def hero (id : String) (h : Hero) (c : Context) : Node :=
  let (style, overlay) := background h
  container id ("hero-section text-" ++ h.alignment.name) "hero" c.animate style <|
    (if overlay then
      [.line 2, .element "div" [.fixed "class" "hero-overlay", .fixed "aria-hidden" "true"] []]
    else []) ++
    [.line 2,
      .element "div" [.fixed "class" "container hero-content"] <|
        [.line 4,
          .element "h1" [.fixed "class" "hero-title", .style "color" h.textColor]
            [.escaped h.headline],
          .line 4,
          .element "p" [.fixed "class" "hero-subtitle", .style "color" h.textColor]
            [.escaped h.subheadline]] ++
        (if h.buttonText.isEmpty then [] else
          [.line 4,
            .element "a"
              [.escaped "href" (buttonTarget h.buttonAction c),
                .fixed "class" "btn hero-button", buttonStyle h.buttonColor]
              [.escaped h.buttonText]]) ++
        [.line 2],
      .line 0]

/-! ### Content -/

/-- The image of a content block. -/
def contentImage (url title : String) : List Node :=
  [.line 4,
    .element "div" [.fixed "class" "content-image"]
      [.line 6,
        .void "img" [.escaped "src" url, .escaped "alt" title, .fixed "class" "responsive-image"],
        .line 4]]

/-- The title and the paragraphs of a content block. -/
def contentText (b : Content) : List Node :=
  [.line 4,
    .element "div" [.fixed "class" "content-text"]
      [.line 6,
        .element "h2" [.fixed "class" "content-title", .style "color" b.textColor]
          [.escaped b.title],
        .line 6,
        .element "div" [.fixed "class" "content-body", .style "color" b.textColor] <|
          (paragraphs b.content.toList).flatMap (fun p =>
            [.line 8, .element "p" [] [.escaped (.ofList p)]]) ++
          [.line 6],
        .line 4]]

/-- The layout of a content block: beside its image, above or below it, or alone. -/
def contentClasses (b : Content) : String :=
  match given? b.imageUrl with
  | none => "content-container"
  | some _ =>
    if b.imagePosition.sideBySide then "content-container content-grid"
    else "content-container content-stacked"

/-- The parts of a content block in order. -/
def contentParts (b : Content) : List Node :=
  match given? b.imageUrl with
  | none => contentText b
  | some url =>
    if b.imagePosition.leads then contentImage url b.title ++ contentText b
    else contentText b ++ contentImage url b.title

def content (id : String) (b : Content) (c : Context) : Node :=
  container id ("content-section " ++ b.padding.cssClass) "content" c.animate
    (.style "background-color" b.backgroundColor)
    [.line 2,
      .element "div" [.fixed "class" (contentClasses b)] (contentParts b ++ [.line 2]),
      .line 0]

/-! ### Call to action -/

/-- The type, the placeholder and the completion hint of an input. -/
structure InputSpec where
  name : String
  type : String
  placeholder : String
  autocomplete : String

def inputSpec : FormField → InputSpec
  | .name => ⟨"name", "text", "Your Name", "name"⟩
  | .email => ⟨"email", "email", "Your Email", "email"⟩
  | .phone => ⟨"phone", "tel", "Your Phone", "tel"⟩

/-- An input of a form. -/
def input (form : String) (field : FormField) : List Node :=
  let spec := inputSpec field
  [.line 6,
    .element "div" [.fixed "class" "form-group"]
      [.line 8,
        .void "input"
          [.fixed "type" spec.type,
            ⟨"id", some [.escaped form, .fixed ("-" ++ spec.name)]⟩,
            .fixed "name" spec.name, .fixed "placeholder" spec.placeholder,
            .fixed "aria-label" spec.placeholder, .fixed "autocomplete" spec.autocomplete,
            .fixed "class" "form-field", .bare "required"],
        .line 6]]

/-- The form of a call to action. -/
def form (id : String) (a : CallToAction) (c : Context) : Node :=
  .element "form"
    [.escaped "id" (formId id), .fixed "class" "form-container", .fixed "method" "post",
      .escaped "data-form-handler" c.form.name, .escaped "data-page-id" c.pageIdentifier,
      .escaped "data-recipient-email" a.recipientEmail] <|
    a.formFields.enabled.flatMap (input (formId id)) ++
    [.line 6,
      .element "button"
        [.fixed "type" "submit", .fixed "class" "btn cta-button", buttonStyle a.buttonColor]
        [.escaped a.buttonText],
      .line 6,
      .element "div"
        [.escaped "id" (messageId id), .fixed "class" "form-message", .fixed "role" "status",
          .fixed "aria-live" "polite", .fixed "style" "display: none;"] [],
      .line 4]

/-- The button of a call to action without a form. -/
def plainButton (a : CallToAction) : Node :=
  .element "a"
    [.fixed "href" "#", .fixed "class" "btn cta-button", buttonStyle a.buttonColor]
    [.escaped a.buttonText]

def callToAction (id : String) (a : CallToAction) (c : Context) : Node :=
  container id "cta-section text-center" "cta" c.animate
    (.style "background-color" a.backgroundColor)
    [.line 2,
      .element "div" [.fixed "class" "container cta-container"]
        [.line 4,
          .element "h2" [.fixed "class" "cta-title", .style "color" a.textColor]
            [.escaped a.title],
          .line 4,
          .element "p" [.fixed "class" "cta-description", .style "color" a.textColor]
            [.escaped a.description],
          .line 4,
          if a.formEnabled then form id a c else plainButton a,
          .line 2],
      .line 0]

/-! ### Sections -/

/-- A section as a part of a document; nothing for a section of unknown kind. -/
def node? (c : Context) (s : Section) : Option Node :=
  match s.block with
  | .hero h => some (hero s.id h c)
  | .content b => some (content s.id b c)
  | .callToAction a => some (callToAction s.id a c)
  | .unknown _ _ => none

/-- The text of a section, empty for a section of unknown kind. -/
def fragment (c : Context) (s : Section) : List Char :=
  match node? c s with
  | some n => n.text
  | none => []

/-- The sections that are shown, one after the other on lines of their own. -/
def body (c : Context) (sections : List Section) : List Char :=
  List.intercalate ['\n'] ((sections.map (fragment c)).filter fun f => !f.isEmpty)

end PagePress.Render
