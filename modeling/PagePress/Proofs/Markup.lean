import PagePress.Html.Shield
import PagePress.Proofs.Scan

/-!
Documents as sequences of tags with the text after each of them. A document is written tag by tag
(`text`); what is inside a script or a stylesheet is no markup, so such an element counts as one
tag with its content sealed up in it. The documents here are well formed: names are in lower
case, values hold no quotation mark, and neither values nor texts hold the marks of a tag.
-/

namespace PagePress.Markup

open Text Html

/-! ### Documents -/

/-- An attribute of a tag. -/
structure Attr where
  name : List Char
  value : Option (List Char)
  deriving DecidableEq, Repr

def Attr.text (a : Attr) : List Char :=
  ' ' :: a.name ++
    match a.value with
    | none => []
    | some v => '=' :: '"' :: v ++ ['"']

/-- An opening tag. -/
def openingText (name : List Char) (attrs : List Attr) : List Char :=
  '<' :: name ++ attrs.flatMap Attr.text ++ ['>']

/-- A closing tag. -/
def closingText (name : List Char) : List Char := '<' :: '/' :: name ++ ['>']

/-- A script or a stylesheet with what is in it. -/
structure Element where
  name : List Char
  attrs : List Attr
  content : List Char
  deriving DecidableEq, Repr

/-- A tag of a document; sealed elements are of a type of their own. -/
inductive Tag (ε : Type) where
  | declaration (s : List Char)
  | comment (s : List Char)
  | opening (name : List Char) (attrs : List Attr)
  | closing (name : List Char)
  | sealed (e : ε)
  deriving DecidableEq, Repr

/-- A tag and the text up to the next one. -/
structure Span (ε : Type) where
  tag : Tag ε
  after : List Char
  deriving DecidableEq, Repr

/-! ### Well-formed documents -/

/-- A character of the name of an element. -/
def isNameChar (c : Char) : Bool := c.isLower || c.isDigit

/-- The name of an element: a letter, then letters and digits. -/
def isName : List Char → Bool
  | [] => false
  | c :: s => c.isLower && s.all isNameChar

/-- The name of an attribute: letters and hyphens. -/
def isAttrName (s : List Char) : Bool := !s.isEmpty && s.all fun c => c.isLower || c == '-'

/-- A character that is no mark of a tag. -/
def isTextChar (c : Char) : Bool := c != '<' && c != '>'

/-- A character that may stand in a value between quotation marks. -/
def isValueChar (c : Char) : Bool := isTextChar c && c != '"'

structure Attr.WellFormed (a : Attr) : Prop where
  name : isAttrName a.name = true
  value : ∀ v, a.value = some v → ∀ c ∈ v, isValueChar c = true

/-- The elements whose content is sealed. -/
def sealedNames : List (List Char) := ["script".toList, "style".toList]

structure Element.WellFormed (e : Element) : Prop where
  name : e.name ∈ sealedNames
  attrs : ∀ a ∈ e.attrs, a.WellFormed
  content : '<' ∉ e.content

/-- What can be sealed up in a document: how it is written, and what it has to keep to. -/
class Written (ε : Type) where
  text : ε → List Char
  WellFormed : ε → Prop

instance : Written Element where
  text e := openingText e.name e.attrs ++ e.content ++ closingText e.name
  WellFormed := Element.WellFormed

section

variable {ε : Type} [Written ε]

def Tag.text : Tag ε → List Char
  | declaration s => '<' :: '!' :: s ++ ['>']
  | comment s => '<' :: '!' :: '-' :: '-' :: s ++ ['-', '-', '>']
  | opening name attrs => openingText name attrs
  | closing name => closingText name
  | sealed e => Written.text e

def Span.text (s : Span ε) : List Char := s.tag.text ++ s.after

/-- The text of a document. -/
def text (d : List (Span ε)) : List Char := d.flatMap Span.text

@[simp] theorem text_nil : text ([] : List (Span ε)) = [] := rfl

@[simp] theorem text_cons (s : Span ε) (d : List (Span ε)) :
    text (s :: d) = s.tag.text ++ (s.after ++ text d) := by
  simp [text, Span.text]

@[simp] theorem text_append (d d' : List (Span ε)) : text (d ++ d') = text d ++ text d' := by
  simp [text]

/-- A tag that can be told from its text. -/
def Tag.WellFormed : Tag ε → Prop
  | declaration s => s = "DOCTYPE html".toList
  | comment s => ∀ c ∈ s, isTextChar c = true ∧ c ≠ '-' ∧ c ≠ '[' ∧ c ≠ '\x00'
  | opening name attrs =>
    isName name = true ∧ (∀ m ∈ Shield.names, m.toList ≠ name) ∧ ∀ a ∈ attrs, a.WellFormed
  | closing name => isName name = true
  | sealed e => Written.WellFormed e

structure Span.WellFormed (s : Span ε) : Prop where
  tag : s.tag.WellFormed
  after : ∀ c ∈ s.after, isTextChar c = true

/-- A document all of whose tags can be told from the text. -/
def WellFormed (d : List (Span ε)) : Prop := ∀ s ∈ d, s.WellFormed

end

end PagePress.Markup
