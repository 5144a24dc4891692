import PagePress.Html.Shield

/-!
Loading hints of images: each image that has none is to be loaded when it is needed and decoded
beside other work.
-/

namespace PagePress.Reduce

open Text

/-- Splits the body of an image tag into its attributes and the slash that may end it. White
space before the slash, or at the end, belongs to neither. -/
def splitSlash (body : List Char) : List Char × List Char :=
  match body.reverse with
  | '/' :: rest => ((rest.dropWhile isBlank).reverse, ['/'])
  | rest => ((rest.dropWhile isBlank).reverse, [])

/-- Adds an attribute unless the attributes mention it. -/
def addHint (mention hint : String) (lowered attributes : List Char) : List Char :=
  if containsText mention lowered then attributes else attributes ++ hint.toList

/-- Recognises an image tag and adds the hints that it lacks. -/
def imageTag? : Recognizer (List Char) := fun _ s =>
  (Html.openTag? "img" s).map fun k =>
    let (attributes, slash) := splitSlash (Html.tagBody "img" k.text)
    let lowered := lower attributes
    let hinted := addHint "decoding=" " decoding=\"async\"" lowered
      (addHint "loading=" " loading=\"lazy\"" lowered attributes)
    ("<img".toList ++ hinted ++ slash ++ ['>'], k)

/-- The document with loading hints on its images. -/
def hintImages (html : List Char) : List Char := Html.Shield.around (replaceAll imageTag?) html

end PagePress.Reduce
