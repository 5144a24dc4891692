import PagePress.Inspect.Markup
import PagePress.Number.Rounding
import PagePress.Text.Units

/-!
Inspection of a finished document. Every finding is advice: what every document needs and this
one lacks, tags that do not balance, size, images and inputs that a screen reader cannot name,
and addresses that a browser may refuse.
-/

namespace PagePress

/-- Something that the inspection of a document found. -/
inductive Finding where
  | missingDoctype
  | missingElement (name : String)
  | missingViewport
  | unclosed (name : String) (count : Nat)
  | extraClosing (name : String) (count : Nat)
  | oversized (kilobytes : Nat)
  | imageWithoutAlt (number : Nat)
  | inputWithoutLabel (number : Nat)
  | scriptAddress
  | documentAddress
  deriving DecidableEq, Repr

namespace Finding

/-- The size in bytes above which a document is oversized. -/
def sizeLimit : Nat := 200 * 1024

def message : Finding → String
  | missingDoctype => "Missing DOCTYPE declaration"
  | missingElement name => "Missing " ++ name ++ " tag"
  | missingViewport => "Missing viewport meta tag"
  | unclosed name count => "Unclosed tag: " ++ name ++ " (" ++ toString count ++ " unclosed)"
  | extraClosing name count =>
    "Extra closing tag: " ++ name ++ " (" ++ toString count ++ " extra)"
  | oversized kilobytes =>
    "HTML file size (" ++ toString kilobytes ++ "KB) exceeds recommended " ++
      toString (sizeLimit / 1024) ++ "KB"
  | imageWithoutAlt number =>
    "Image " ++ toString number ++ " missing alt attribute for accessibility"
  | inputWithoutLabel number =>
    "Form input " ++ toString number ++ " missing label or placeholder"
  | scriptAddress => "Found javascript: URI which may be blocked by browsers"
  | documentAddress => "Found data:text/html URI which may pose security risks"

end Finding

namespace Inspect

open Text Html

/-- Elements that have no closing tag. -/
def voidElements : List String :=
  ["area", "base", "br", "col", "embed", "hr", "img", "input", "link", "meta", "source", "track",
    "wbr"]

/-- Types of inputs that hold text and so need a name. -/
def textInputTypes : List String := ["text", "email", "tel", "search", "url", "password"]

/-- Recognises the start of a `meta` tag that names the viewport. -/
def namesViewport (s : List Char) : Bool :=
  match tagStart? "meta" s with
  | none => false
  | some start =>
    occurs (fun before t => startsWord before &&
      match Cut.wordAnyCase? "name" t with
      | none => false
      | some name =>
        match Cut.char? (· == '=') (name.rest.dropWhile isBlank) with
        | none => false
        | some equals =>
          let value := equals.rest.dropWhile isBlank
          let unquoted := match value with
            | c :: rest => if c = '"' || c = '\'' then rest else value
            | [] => []
          (Cut.wordAnyCase? "viewport" unquoted).isSome)
      (start.last none) (start.rest.takeWhile (· != '>'))

/-- The texts that every document contains in some case, with the findings if they are
missing. -/
def required : List (String × Finding) :=
  [("<!doctype html>", .missingDoctype), ("<html", .missingElement "html"),
    ("<head>", .missingElement "head"), ("<body>", .missingElement "body"),
    ("<title>", .missingElement "title")]

/-- What every document needs and this one lacks. -/
def missing (html : List Char) : List Finding :=
  let lowered := lower html
  (required.filterMap fun (needle, finding) =>
      if containsText needle lowered then none else some finding) ++
    if occurs (fun _ s => namesViewport s) none html then [] else [.missingViewport]

/-- A name of an element as it is counted: in lower case. -/
def countedName (name : List Char) : String := .ofList (name.map Char.toLower)

/-- The names of the opening tags that need a closing one. -/
def opened (markup : List Char) : List String :=
  ((findAll openName? markup).map countedName).filter fun name => !voidElements.contains name

/-- The names of the closing tags. -/
def closed (markup : List Char) : List String := (findAll closeName? markup).map countedName

/-- The finding about one name, if its tags do not balance. -/
def balanceOf (opened closed : List String) (name : String) : Option Finding :=
  let a := opened.count name
  let b := closed.count name
  if b < a then some (.unclosed name (a - b))
  else if a < b then some (.extraClosing name (b - a))
  else none

/-- The tags that do not balance, by name. -/
def unbalanced (markup : List Char) : List Finding :=
  let opened := opened markup
  let closed := closed markup
  let names := ((opened ++ closed).mergeSort fun a b => a ≤ b).eraseReps
  names.filterMap (balanceOf opened closed)

/-- A document that is too large. -/
def oversize (html : List Char) : List Finding :=
  let size := byteSize html
  if Finding.sizeLimit < size then [.oversized (Number.roundHalfEven size 1024)] else []

/-- Images without a description. -/
def undescribed (markup : List Char) : List Finding :=
  ((findAll (tag? "img") markup).zipIdx 1).filterMap fun (tag, number) =>
    if hasAttribute "alt" tag then none else some (.imageWithoutAlt number)

/-- An attribute is there and not empty. -/
def filled (name : String) (tag : List Char) : Bool :=
  (attribute? name tag).any fun value => !value.isEmpty

/-- The type of an input in lower case; an input without one holds text. -/
def inputType (tag : List Char) : List Char :=
  match attribute? "type" tag with
  | none | some [] => "text".toList
  | some type => lower type

/-- An input holds text, and nothing tells what it is for. -/
def isUnlabelled (labelled : List (List Char)) (tag : List Char) : Bool :=
  textInputTypes.contains (String.ofList (inputType tag)) &&
    !filled "placeholder" tag && !filled "aria-label" tag &&
    !(attribute? "id" tag).any labelled.contains

/-- Inputs that nothing tells the purpose of. -/
def unlabelled (markup : List Char) : List Finding :=
  let labelled := findAll labelTarget? markup
  ((findAll (tag? "input") markup).zipIdx 1).filterMap fun (tag, number) =>
    if isUnlabelled labelled tag then some (.inputWithoutLabel number) else none

/-- Addresses that a browser may refuse. -/
def refusedAddresses (html : List Char) : List Finding :=
  let lowered := lower html
  (if containsText "javascript:" lowered then [.scriptAddress] else []) ++
    if containsText "data:text/html" lowered then [.documentAddress] else []

end Inspect

open Inspect in
/-- What the inspection of a document finds, in a fixed order of subjects. -/
def inspect (html : List Char) : List Finding :=
  let markup := markupOnly html
  missing html ++ unbalanced markup ++ oversize html ++ undescribed markup ++
    unlabelled markup ++ refusedAddresses html

end PagePress
