import PagePress.Value

/-!
The model of a landing page: a theme, metadata and a list of sections. A section shows a hero, a
block of content or a call to action; a section of any other kind is kept with its data, and
nothing is shown for it.
-/

namespace PagePress

/-- A text that is given and not empty. -/
def given? (text : Option String) : Option String := text.filter fun s => !s.isEmpty

/-- The families of fonts that a theme offers. -/
inductive FontFamily where
  | modern
  | classic
  | playful
  deriving DecidableEq, Repr, Inhabited

namespace FontFamily

def names : List (String × FontFamily) :=
  [("modern", modern), ("classic", classic), ("playful", playful)]

def name : FontFamily → String
  | modern => "modern"
  | classic => "classic"
  | playful => "playful"

/-- The list of fonts in a stylesheet. -/
def stack : FontFamily → String
  | modern => "'Inter', -apple-system, BlinkMacSystemFont, 'Segoe UI', Roboto, sans-serif"
  | classic => "'Georgia', 'Times New Roman', serif"
  | playful => "'Comic Sans MS', cursive, sans-serif"

end FontFamily

/-- Where the button of a hero leads. -/
inductive ButtonAction where
  | scroll
  | form
  | link
  deriving DecidableEq, Repr, Inhabited

namespace ButtonAction

def names : List (String × ButtonAction) := [("scroll", scroll), ("form", form), ("link", link)]

def name : ButtonAction → String
  | scroll => "scroll"
  | form => "form"
  | link => "link"

end ButtonAction

/-- What lies behind a hero. -/
inductive BackgroundType where
  | color
  | image
  | gradient
  deriving DecidableEq, Repr, Inhabited

namespace BackgroundType

def names : List (String × BackgroundType) :=
  [("color", color), ("image", image), ("gradient", gradient)]

def name : BackgroundType → String
  | color => "color"
  | image => "image"
  | gradient => "gradient"

end BackgroundType

/-- How the text of a hero is aligned. -/
inductive Alignment where
  | left
  | center
  | right
  deriving DecidableEq, Repr, Inhabited

namespace Alignment

def names : List (String × Alignment) := [("left", left), ("center", center), ("right", right)]

def name : Alignment → String
  | left => "left"
  | center => "center"
  | right => "right"

end Alignment

/-- Where the image of a content block stands. -/
inductive ImagePosition where
  | left
  | right
  | top
  | bottom
  deriving DecidableEq, Repr, Inhabited

namespace ImagePosition

def names : List (String × ImagePosition) :=
  [("left", left), ("right", right), ("top", top), ("bottom", bottom)]

def name : ImagePosition → String
  | left => "left"
  | right => "right"
  | top => "top"
  | bottom => "bottom"

/-- The image comes before the text. -/
def leads : ImagePosition → Bool
  | left | top => true
  | right | bottom => false

/-- The image and the text share a row. -/
def sideBySide : ImagePosition → Bool
  | left | right => true
  | top | bottom => false

end ImagePosition

/-- How much room a content block leaves above and below. -/
inductive Padding where
  | small
  | medium
  | large
  deriving DecidableEq, Repr, Inhabited

namespace Padding

def names : List (String × Padding) := [("small", small), ("medium", medium), ("large", large)]

def name : Padding → String
  | small => "small"
  | medium => "medium"
  | large => "large"

/-- The class that gives this much room. -/
def cssClass : Padding → String
  | small => "py-8"
  | medium => "py-16"
  | large => "py-24"

end Padding

/-- The palette and the fonts that all sections share. -/
structure Theme where
  primaryColor : String := "#3b82f6"
  secondaryColor : String := "#10b981"
  fontFamily : FontFamily := .modern
  deriving DecidableEq, Repr, Inhabited

/-- The opening block of a page. -/
structure Hero where
  headline : String := ""
  subheadline : String := ""
  buttonText : String := ""
  buttonAction : ButtonAction := .scroll
  backgroundType : BackgroundType := .color
  backgroundColor : String := "#1e3a8a"
  backgroundImage : Option String := none
  backgroundGradient : Option String := none
  textColor : String := "#ffffff"
  buttonColor : String := "#3b82f6"
  alignment : Alignment := .center
  deriving DecidableEq, Repr, Inhabited

/-- A block of text, possibly with an image. -/
structure Content where
  title : String := ""
  content : String := ""
  imageUrl : Option String := none
  imagePosition : ImagePosition := .right
  backgroundColor : String := "#ffffff"
  textColor : String := "#1f2937"
  padding : Padding := .medium
  deriving DecidableEq, Repr, Inhabited

/-- The inputs that a contact form can have. -/
inductive FormField where
  | name
  | email
  | phone
  deriving DecidableEq, Repr, Inhabited

/-- Which inputs a contact form has. -/
structure FormFields where
  name : Bool := true
  email : Bool := true
  phone : Bool := false
  deriving DecidableEq, Repr, Inhabited

/-- The inputs of a form in the order in which they are shown. -/
def FormFields.enabled (f : FormFields) : List FormField :=
  (if f.name then [.name] else []) ++ (if f.email then [.email] else []) ++
    (if f.phone then [.phone] else [])

/-- A closing block with a button or a contact form. -/
structure CallToAction where
  title : String := ""
  description : String := ""
  formEnabled : Bool := false
  formFields : FormFields := {}
  buttonText : String := "Get Started"
  recipientEmail : String := ""
  backgroundColor : String := "#f9fafb"
  textColor : String := "#1f2937"
  buttonColor : String := "#3b82f6"
  deriving DecidableEq, Repr, Inhabited

/-- What a section shows. -/
inductive Block where
  | hero (h : Hero)
  | content (c : Content)
  | callToAction (a : CallToAction)
  | unknown (kind : String) (data : List (Value × Value))
  deriving Repr, Inhabited

/-- A section of a page with its place in the order of sections. -/
structure Section where
  id : String
  order : Int
  block : Block
  deriving Repr, Inhabited

/-- A landing page. -/
structure Page where
  id : String
  title : String
  sections : List Section
  theme : Theme := {}
  description : String := ""
  favicon : Option String := none
  deriving Repr, Inhabited

namespace Section

/-- The sections in ascending order; sections of equal order keep their places. -/
def inOrder (sections : List Section) : List Section :=
  sections.mergeSort fun a b => a.order ≤ b.order

/-- The section is a call to action with a contact form. -/
def form? (s : Section) : Option CallToAction :=
  match s.block with
  | .callToAction a => if a.formEnabled then some a else none
  | _ => none

end Section

end PagePress
