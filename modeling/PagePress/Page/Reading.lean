import PagePress.Number.Integer
import PagePress.Page
import PagePress.Text.Case

/-!
Reading a page from the value that an editor has stored. Missing entries and unknown choices
take their defaults; a page is refused when it is no mapping, when its sections are no list, or
when a section has no id, no whole number for its order, or something other than a mapping where
one is needed. The checks go from the page to its sections in turn and then to the theme and
the metadata, and the first one that fails is reported.
-/

namespace PagePress

/-- Where a mapping is expected. -/
inductive MappingPlace where
  | sectionEntry (index : Nat)
  | sectionData (id : String)
  | formFields
  | globalStyles
  | metadata
  deriving DecidableEq, Repr

def MappingPlace.text : MappingPlace → String
  | sectionEntry index => "section #" ++ toString index
  | sectionData id => "section '" ++ id ++ "' data"
  | formFields => "formFields"
  | globalStyles => "globalStyles"
  | metadata => "metadata"

/-- Why a value is no page. -/
inductive PageError where
  | pageNotMapping
  | sectionsNotList
  | notMapping (place : MappingPlace) (found : Value)
  | missingId (index : Nat)
  | orderNotInteger (id : String) (found : Value)

def PageError.message : PageError → String
  | pageNotMapping => "Top-level page model must be a mapping."
  | sectionsNotList => "Page model 'sections' must be a list."
  | notMapping place found =>
    "Expected a mapping for " ++ place.text ++ ", got " ++ found.kindName ++ "."
  | missingId index => "Section #" ++ toString index ++ " is missing an 'id'."
  | orderNotInteger id found =>
    "Section '" ++ id ++ "' has a non-integer order: " ++ found.cited ++ "."

namespace Page

/-- The entries of a mapping, where nothing at all counts as an empty mapping. -/
abbrev Entries := List (Value × Value)

/-- The entry under a key, if it is there and not null. -/
def present? (entries : Entries) (key : String) : Option Value :=
  match Value.lookup? key entries with
  | some .null => none
  | v => v

/-- The text under a key as it stands, or a default. -/
def textAt (entries : Entries) (key : String) (default : String) : String :=
  ((present? entries key).map Value.display).getD default

/-- The trimmed text under a key, if anything is left of it. -/
def optionalTextAt (entries : Entries) (key : String) : Option String :=
  (present? entries key).bind fun v => Text.nonBlank? v.display

/-- The words that switch something on. -/
def switchWords : List String := ["1", "true", "yes", "on"]

/-- The switch under a key, or a default. -/
def switchAt (entries : Entries) (key : String) (default : Bool) : Bool :=
  match present? entries key with
  | none => default
  | some (.text s) => switchWords.contains (Text.lowered (Text.trimmed s))
  | some v => v.holds

/-- The choice named under a key, or a default when it names none. -/
def choiceAt {α : Type} (names : List (String × α)) (entries : Entries) (key : String)
    (default : α) : α :=
  ((present? entries key).bind fun v => names.lookup (Text.lowered (Text.trimmed v.display))).getD
    default

/-- The mapping at a place. -/
def mappingOf (place : MappingPlace) : Option Value → Except PageError Entries
  | none | some .null => .ok []
  | some v => (v.entries?.map Except.ok).getD (.error (.notMapping place v))

/-- The order of a section: a whole number, as a number or as text. -/
def orderOf? : Value → Option Int
  | .int n => some n
  | .float x => x.toInt?
  | .text s => Number.readInteger? s.toList
  | _ => none

def readHero (data : Entries) : Hero :=
  let base : Hero := {}
  { headline := textAt data "headline" base.headline
    subheadline := textAt data "subheadline" base.subheadline
    buttonText := textAt data "buttonText" base.buttonText
    buttonAction := choiceAt ButtonAction.names data "buttonAction" base.buttonAction
    backgroundType := choiceAt BackgroundType.names data "backgroundType" base.backgroundType
    backgroundColor := textAt data "backgroundColor" base.backgroundColor
    backgroundImage := optionalTextAt data "backgroundImage"
    backgroundGradient := optionalTextAt data "backgroundGradient"
    textColor := textAt data "textColor" base.textColor
    buttonColor := textAt data "buttonColor" base.buttonColor
    alignment := choiceAt Alignment.names data "alignment" base.alignment }

def readContent (data : Entries) : Content :=
  let base : Content := {}
  { title := textAt data "title" base.title
    content := textAt data "content" base.content
    imageUrl := optionalTextAt data "imageUrl"
    imagePosition := choiceAt ImagePosition.names data "imagePosition" base.imagePosition
    backgroundColor := textAt data "backgroundColor" base.backgroundColor
    textColor := textAt data "textColor" base.textColor
    padding := choiceAt Padding.names data "padding" base.padding }

def readFormFields (fields : Entries) : FormFields :=
  let base : FormFields := {}
  { name := switchAt fields "name" base.name
    email := switchAt fields "email" base.email
    phone := switchAt fields "phone" base.phone }

def readCallToAction (data : Entries) : Except PageError CallToAction := do
  let base : CallToAction := {}
  let fields ← mappingOf .formFields (Value.lookup? "formFields" data)
  return {
    title := textAt data "title" base.title
    description := textAt data "description" base.description
    formEnabled := switchAt data "formEnabled" base.formEnabled
    formFields := readFormFields fields
    buttonText := textAt data "buttonText" base.buttonText
    recipientEmail := Text.trimmed (textAt data "recipientEmail" base.recipientEmail)
    backgroundColor := textAt data "backgroundColor" base.backgroundColor
    textColor := textAt data "textColor" base.textColor
    buttonColor := textAt data "buttonColor" base.buttonColor }

/-- The block of a section whose kind is given in lower case. -/
def readBlock (kind : String) (data : Entries) : Except PageError Block :=
  if kind = "hero" then .ok (.hero (readHero data))
  else if kind = "content" then .ok (.content (readContent data))
  else if kind = "cta" then (readCallToAction data).map .callToAction
  else .ok (.unknown kind data)

/-- The kind of a section: the text of its type, trimmed and in lower case. -/
def kindOf (entries : Entries) : String :=
  match Value.lookup? "type" entries with
  | none => ""
  | some v => Text.lowered (Text.trimmed v.display)

/-- Reads the section at a position of the list, which is also its order if none is given. -/
def readSection (index : Nat) (entry : Value) : Except PageError Section := do
  let entries ← mappingOf (.sectionEntry index) (some entry)
  let some id := optionalTextAt entries "id" | throw (.missingId index)
  let given := (Value.lookup? "order" entries).getD (.int index)
  let some order := orderOf? given | throw (.orderNotInteger id given)
  let data ← mappingOf (.sectionData id) (Value.lookup? "data" entries)
  let block ← readBlock (kindOf entries) data
  return { id, order, block }

/-- Reads sections from the one at position `index` on. -/
def readSections (index : Nat) : List Value → Except PageError (List Section)
  | [] => .ok []
  | entry :: rest => do
    let first ← readSection index entry
    return first :: (← readSections (index + 1) rest)

def readTheme (styles : Entries) : Theme :=
  let base : Theme := {}
  { primaryColor := textAt styles "primaryColor" base.primaryColor
    secondaryColor := textAt styles "secondaryColor" base.secondaryColor
    fontFamily := choiceAt FontFamily.names styles "fontFamily" base.fontFamily }

/-- The id of a page that has none of its own. -/
def defaultId : String := "page"

/-- The list of section entries of a page. -/
def sectionEntries (entries : Entries) : Except PageError (List Value) :=
  match present? entries "sections" with
  | none => .ok []
  | some v => (v.items?.map Except.ok).getD (.error .sectionsNotList)

/-- Reads a page. -/
def read (v : Value) : Except PageError Page := do
  let some entries := v.entries? | throw .pageNotMapping
  let sections ← readSections 0 (← sectionEntries entries)
  let styles ← mappingOf .globalStyles (Value.lookup? "globalStyles" entries)
  let metadata ← mappingOf .metadata (Value.lookup? "metadata" entries)
  return {
    id := (optionalTextAt entries "id").getD defaultId
    title := textAt entries "title" ""
    sections
    theme := readTheme styles
    description := textAt metadata "description" ""
    favicon := optionalTextAt metadata "favicon" }

end Page

end PagePress
