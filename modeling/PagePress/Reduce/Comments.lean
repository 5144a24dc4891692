import PagePress.Html.Shield

/-!
Removal of comments from a document. Conditional comments stay, and so does what looks like the
end of one.
-/

namespace PagePress.Reduce

open Text

/-- What a comment that stays begins with. -/
def isConditional (body : List Char) : Bool :=
  match Cut.word? "[if" body with
  | some k => endsWord k.rest
  | none => (Cut.word? "<!" body).isSome

/-- Recognises a comment that may go. -/
def comment? : Recognizer (List Char) := fun _ s => do
  let opening ← Cut.word? "<!--" s
  if isConditional opening.rest then none
  else
    let body ← Cut.before? (fun t => (Cut.word? "-->" t).isSome) opening.rest
    let closing ← Cut.word? "-->" body.rest
    return ([], (opening.andThen body).andThen closing)

/-- The document without its comments. -/
def stripComments (html : List Char) : List Char := Html.Shield.around (replaceAll comment?) html

end PagePress.Reduce
