import PagePress.Html.Shield

/-!
Attributes without a value: all go except `alt`, whose empty value says that an image needs no
description.
-/

namespace PagePress.Reduce

open Text

/-- A character of an attribute's name. -/
def isNameChar (c : Char) : Bool := isWord c || c == ':' || c == '.' || c == '-'

/-- Takes two quotes with nothing between them. -/
def emptyValue? (s : List Char) : Option (Cut s) :=
  (Cut.word? "\"\"" s).orElse fun _ => Cut.word? "''" s

/-- Recognises an attribute with an empty value and the white space before it. -/
def emptyAttribute? : Recognizer (List Char) := fun _ s => do
  let space ← Cut.spanSome? isBlank s
  let name ← Cut.spanSome? isNameChar space.rest
  let left := Cut.span isBlank name.rest
  let equals ← Cut.char? (· == '=') left.rest
  let right := Cut.span isBlank equals.rest
  let value ← emptyValue? right.rest
  let k := ((((space.andThen name).andThen left).andThen equals).andThen right).andThen value
  return (if lower name.text == "alt".toList then k.text else [], k)

/-- Recognises a start tag and drops its empty attributes. -/
def startTag? : Recognizer (List Char) := fun _ s => do
  let mark ← Cut.char? (· == '<') s
  let letter ← Cut.char? Char.isAlpha mark.rest
  let body := Cut.span (fun c => c != '<' && c != '>') letter.rest
  let close ← Cut.char? (· == '>') body.rest
  let k := ((mark.andThen letter).andThen body).andThen close
  return (replaceAll emptyAttribute? k.text, k)

/-- The document without empty attributes. -/
def dropEmptyAttributes (html : List Char) : List Char :=
  Html.Shield.around (replaceAll startTag?) html

end PagePress.Reduce
