import PagePress.Piece

/-!
Documents as trees of elements, and how a tree is written. White space between tags belongs to the
layout of a document, so it is part of the tree.
-/

namespace PagePress.Html

/-- An attribute of an element, with a value or without one. -/
structure Attribute where
  name : String
  value : Option (List Piece)
  deriving DecidableEq, Repr

namespace Attribute

/-- An attribute without a value. -/
def bare (name : String) : Attribute := ⟨name, none⟩

/-- An attribute whose value belongs to the layout. -/
def fixed (name value : String) : Attribute := ⟨name, some [.fixed value]⟩

/-- An attribute whose value is a text of the author. -/
def escaped (name value : String) : Attribute := ⟨name, some [.escaped value]⟩

/-- A `style` attribute that sets one property to a value of the author. -/
def style (property value : String) : Attribute :=
  ⟨"style", some [.fixed (property ++ ": "), .raw value, .fixed ";"]⟩

def text (a : Attribute) : List Char :=
  ' ' :: a.name.toList ++
    match a.value with
    | none => []
    | some pieces => '=' :: '"' :: Piece.textAll pieces ++ ['"']

end Attribute

/-- A part of a document. -/
inductive Node where
  | piece (p : Piece)
  | comment (s : String)
  /-- An element that has no content and no closing tag. -/
  | void (name : String) (attributes : List Attribute)
  | element (name : String) (attributes : List Attribute) (children : List Node)

namespace Node

def fixed (s : String) : Node := piece (.fixed s)

def escaped (s : String) : Node := piece (.escaped s)

def raw (s : String) : Node := piece (.raw s)

/-- The start of a line behind an indent. -/
def line (indent : Nat) : Node := fixed (.ofList ('\n' :: List.replicate indent ' '))

/-- An opening tag. -/
def openingText (name : String) (attributes : List Attribute) : List Char :=
  '<' :: name.toList ++ attributes.flatMap Attribute.text ++ ['>']

/-- A closing tag. -/
def closingText (name : String) : List Char := '<' :: '/' :: name.toList ++ ['>']

mutual

/-- A part of a document as it is written. -/
def text : Node → List Char
  | piece p => p.text
  | comment s => "<!--".toList ++ s.toList ++ "-->".toList
  | void name attributes => openingText name attributes
  | element name attributes children =>
    openingText name attributes ++ textAll children ++ closingText name

/-- Some parts of a document as they are written. -/
def textAll : List Node → List Char
  | [] => []
  | n :: rest => text n ++ textAll rest

end

end Node

end PagePress.Html
