import PagePress.Text.Scan
import PagePress.Text.Blank
import PagePress.Text.Word

/-!
Tags and elements in the text of a document. Nothing is parsed here: a tag runs from its name to
the next `>`, and an element from its opening tag to the first closing tag that fits.
-/

namespace PagePress.Html

open Text

/-- Takes `<` and a name in any case that ends there. -/
def tagStart? (name : String) (s : List Char) : Option (Cut s) := do
  let mark ← Cut.char? (· == '<') s
  let word ← Cut.wordAnyCase? name mark.rest
  if endsWord word.rest then some (mark.andThen word) else none

/-- Takes everything up to and with the next `>`. -/
def throughClose? (s : List Char) : Option (Cut s) := do
  let body := Cut.span (· != '>') s
  let close ← Cut.char? (· == '>') body.rest
  return body.andThen close

/-- Takes a tag of the given name in any case. -/
def openTag? (name : String) (s : List Char) : Option (Cut s) := do
  let start ← tagStart? name s
  let rest ← throughClose? start.rest
  return start.andThen rest

/-- The text between the name of a tag and its `>`. -/
def tagBody (name : String) (tag : List Char) : List Char := (tag.drop (name.length + 1)).dropLast

/-- Takes a closing tag whose name compares with `name` as `same` says, with white space allowed
before its `>`. -/
def closeTag? (same : Char → Char → Bool) (name : List Char) (s : List Char) : Option (Cut s) := do
  let mark ← Cut.word? "</" s
  let word ← Cut.wordBy? same name mark.rest
  let space := Cut.span isBlank word.rest
  let close ← Cut.char? (· == '>') space.rest
  return ((mark.andThen word).andThen space).andThen close

/-- An element at the front of a text: its opening tag, what it holds, and its closing tag. -/
structure Element (s : List Char) where
  opening : Cut s
  body : Cut opening.rest
  closing : Cut body.rest

/-- The cut after an element. -/
def Element.cut {s : List Char} (e : Element s) : Cut s :=
  (e.opening.andThen e.body).andThen e.closing

/-- Completes an element whose opening tag is given. -/
def elementAfter? {s : List Char} (opening : Cut s)
    (close : (t : List Char) → Option (Cut t)) : Option (Element s) := do
  let body ← Cut.before? (fun t => (close t).isSome) opening.rest
  let closing ← close body.rest
  return ⟨opening, body, closing⟩

/-- Takes an element whose two tags have the given name in any case. -/
def element? (name : String) (s : List Char) : Option (Element s) := do
  elementAfter? (← openTag? name s) (closeTag? sameLetter name.toList)

/-- Takes an element whose opening tag has the given name in any case, and whose closing tag
repeats the name letter by letter, up to case. -/
def elementRepeating? (name : String) (s : List Char) : Option (Element s) := do
  let opening ← openTag? name s
  elementAfter? opening (closeTag? sameCaseless ((opening.text.drop 1).take name.length))

end PagePress.Html
