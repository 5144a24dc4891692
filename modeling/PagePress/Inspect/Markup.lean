import PagePress.Html.Tag

/-!
What a reader of a document sees of its markup: the text without comments and without the content
of scripts and stylesheets, the names of its tags, and the attributes of a tag.
-/

namespace PagePress.Inspect

open Text Html

/-- Recognises a comment. -/
def anyComment? : Recognizer (List Char) := fun _ s => do
  let opening ← Cut.word? "<!--" s
  let body ← Cut.before? (fun t => (Cut.word? "-->" t).isSome) opening.rest
  let closing ← Cut.word? "-->" body.rest
  return ([], (opening.andThen body).andThen closing)

/-- Recognises a script or style element and empties it. -/
def rawElement? : Recognizer (List Char) := fun _ s =>
  (["script", "style"].findSome? fun name => elementRepeating? name s).map fun e =>
    (e.opening.text ++ e.closing.text, e.cut)

/-- The markup of a document: comments and the content of scripts and stylesheets are left
out. -/
def markupOnly (html : List Char) : List Char :=
  replaceAll rawElement? (replaceAll anyComment? html)

/-- A character of an element's name after the first one, which is a letter. -/
def isNameChar (c : Char) : Bool := c.isAlphanum || c == '-'

/-- Takes the name of an element. -/
def elementName? (s : List Char) : Option (Cut s) := do
  let letter ← Cut.char? Char.isAlpha s
  return letter.andThen (Cut.span isNameChar letter.rest)

/-- A character after which the name of an opening tag is complete. -/
def endsName (c : Char) : Bool := isBlank c || c == '/' || c == '>'

/-- Recognises the start of an opening tag and reads its name. -/
def openName? : Recognizer (List Char) := fun _ s => do
  let mark ← Cut.char? (· == '<') s
  let name ← elementName? mark.rest
  if name.rest.head?.any endsName then some (name.text, mark.andThen name) else none

/-- Recognises a closing tag and reads its name. -/
def closeName? : Recognizer (List Char) := fun _ s => do
  let mark ← Cut.word? "</" s
  let name ← elementName? mark.rest
  let space := Cut.span isBlank name.rest
  let close ← Cut.char? (· == '>') space.rest
  return (name.text, ((mark.andThen name).andThen space).andThen close)

/-- Recognises a tag of the given name and gives its text. -/
def tag? (name : String) : Recognizer (List Char) := fun _ s =>
  (openTag? name s).map fun k => (k.text, k)

/-- The value at the front of a text: quoted, or up to white space or the end of the tag. -/
def attributeValue? (s : List Char) : Option (List Char) :=
  let quoted (mark : Char) : Option (List Char) :=
    match s with
    | c :: rest =>
      if c = mark && rest.contains mark then some (rest.takeWhile (· != mark)) else none
    | [] => none
  (quoted '"').orElse fun _ => (quoted '\'').orElse fun _ =>
    (Cut.spanSome? (fun c => !isBlank c && c != '>') s).map (·.text)

/-- The value of the first attribute of a tag that has the given name. A name that is the end of
a longer one does not count. -/
def attribute? (name : String) (tag : List Char) : Option (List Char) :=
  firstMatch? (fun before s => do
    if before.any fun c => isWord c || c == '-' then none
    else
      let word ← Cut.wordAnyCase? name s
      let equals ← Cut.char? (· == '=') (word.rest.dropWhile isBlank)
      attributeValue? (equals.rest.dropWhile isBlank)) none tag

/-- A tag mentions an attribute of the given name, with or without a value. -/
def hasAttribute (name : String) (tag : List Char) : Bool :=
  occurs (fun _ s =>
    match Cut.char? isBlank s with
    | none => false
    | some space =>
      match Cut.wordAnyCase? name space.rest with
      | none => false
      | some word => word.rest.head?.any fun c => endsName c || c == '=') none tag

/-- The last mention of an input's id before the end of a label's tag, and the id. -/
def lastTarget? (before : Option Char) : (s : List Char) → Option (List Char × Cut s)
  | [] => none
  | c :: rest =>
    if c = '>' then none
    else
      match lastTarget? (some c) rest with
      | some (id, k) => some (id, ⟨c :: k.text, k.rest, by simp [k.append_eq]⟩)
      | none => do
        if !startsWord before then none
        else
          let word ← Cut.wordAnyCase? "for" (c :: rest)
          let left := Cut.span isBlank word.rest
          let equals ← Cut.char? (· == '=') left.rest
          let right := Cut.span isBlank equals.rest
          let isMark := fun c => c == '"' || c == '\''
          let opening ← Cut.char? isMark right.rest
          let id ← Cut.spanSome? (fun c => !isMark c) opening.rest
          let closing ← Cut.char? isMark id.rest
          return (id.text, ((((((word.andThen left).andThen equals).andThen right).andThen
            opening).andThen id).andThen closing))

/-- Recognises a label and reads the id of the input that it is for. -/
def labelTarget? : Recognizer (List Char) := fun _ s => do
  let start ← tagStart? "label" s
  let (id, k) ← lastTarget? (start.last none) start.rest
  return (id, start.andThen k)

end PagePress.Inspect
