import PagePress.Html.Shield

/-!
White space of a document: every run becomes one space, and a run between two tags goes.
-/

namespace PagePress.Reduce

open Text

/-- Recognises a run of white space, which one space replaces. -/
def blanks? : Recognizer (List Char) := fun _ s =>
  (Cut.spanSome? isBlank s).map fun k => ([' '], k)

/-- Recognises white space between the end of a tag and the start of the next one. -/
def betweenTags? : Recognizer (List Char) := fun _ s => do
  let left ← Cut.char? (· == '>') s
  let space ← Cut.spanSome? isBlank left.rest
  let right ← Cut.char? (· == '<') space.rest
  return (['>', '<'], (left.andThen space).andThen right)

/-- Squeezes the white space of a text. -/
def squeeze (s : List Char) : List Char :=
  trim (replaceAll betweenTags? (replaceAll blanks? s))

/-- The document with its white space squeezed. -/
def collapseBlanks (html : List Char) : List Char := Html.Shield.around squeeze html

end PagePress.Reduce
