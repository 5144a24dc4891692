import PagePress.Html.Shield

/-!
Repeated metadata: of several `meta` tags with one key only the first stays. The key of a tag is
the lower-cased value of its `name`, its `property` or its `http-equiv`, the first of the three
that has one; a tag without a key always stays.
-/

namespace PagePress.Reduce

open Text

/-- The attributes that can hold the key of a `meta` tag, in the order in which they count. -/
def keyAttributes : List String := ["name", "property", "http-equiv"]

/-- Takes a value between two marks. -/
def valueBetween? (mark : Char) (s : List Char) : Option (List Char × Cut s) := do
  let opening ← Cut.char? (· == mark) s
  let body := Cut.span (· != mark) opening.rest
  let closing ← Cut.char? (· == mark) body.rest
  return (body.text, (opening.andThen body).andThen closing)

/-- Takes a quoted value. -/
def quotedValue? (s : List Char) : Option (List Char × Cut s) :=
  (valueBetween? '"' s).orElse fun _ => valueBetween? '\'' s

/-- Recognises an attribute that can hold a key, and reads its name in lower case and its value. -/
def keyAttribute? : Recognizer (List Char × List Char) := fun before s => do
  if !startsWord before then none
  else
    let name ← keyAttributes.findSome? fun name => Cut.wordAnyCase? name s
    let left := Cut.span isBlank name.rest
    let equals ← Cut.char? (· == '=') left.rest
    let right := Cut.span isBlank equals.rest
    let (value, quoted) ← quotedValue? right.rest
    return ((lower name.text, value),
      (((name.andThen left).andThen equals).andThen right).andThen quoted)

/-- The key of a `meta` tag. -/
def metaKey? (tag : List Char) : Option (List Char) :=
  let found := findAll keyAttribute? tag
  keyAttributes.findSome? fun name =>
    match found.lookup name.toList with
    | none | some [] => none
    | some value => some (lower value)

/-- Recognises a `meta` tag and reads its key. -/
def metaTag? : Recognizer (Option (List Char)) := fun _ s =>
  (Html.openTag? "meta" s).map fun k => (metaKey? k.text, k)

/-- The text of some segments without the tags whose key was seen before. -/
def keepFirst (seen : List (List Char)) : List (Segment (Option (List Char))) → List Char
  | [] => []
  | .plain c :: rest => c :: keepFirst seen rest
  | .piece text none :: rest => text ++ keepFirst seen rest
  | .piece text (some key) :: rest =>
    if seen.contains key then keepFirst seen rest else text ++ keepFirst (key :: seen) rest

/-- The document with one `meta` tag per key. -/
def dedupeMetas (html : List Char) : List Char :=
  Html.Shield.around (fun s => keepFirst [] (segments metaTag? s)) html

end PagePress.Reduce
