import PagePress.Html.Tag

/-!
Shielding of elements whose content must not be touched. Each of them is set aside and a
placeholder stands in its place, a tag that holds the number of the element between two NUL
characters; NULs of the document itself are dropped first, so no other text can be taken for a
placeholder. After the change has been made, each placeholder that is still whole gives way to its
element.
-/

namespace PagePress.Html.Shield

open Text

/-- The elements whose content is left alone, in the order in which they are tried. -/
def names : List String := ["pre", "textarea", "script", "style"]

/-- Recognises a shielded element. -/
def shielded? : Recognizer Unit := fun _ s =>
  (names.findSome? fun name => elementRepeating? name s).map fun e => ((), e.cut)

/-- The tag that stands for the element with a given number. -/
def placeholder (index : Nat) : List Char :=
  '<' :: '\x00' :: Nat.toDigits 10 index ++ ['\x00', '>']

/-- The text with numbered placeholders for its elements, counted from `index`. -/
def maskFrom (index : Nat) : List (Segment Unit) → List Char
  | [] => []
  | .plain c :: rest => c :: maskFrom index rest
  | .piece _ _ :: rest => placeholder index ++ maskFrom (index + 1) rest

/-- The elements that were set aside. -/
def saved (segments : List (Segment Unit)) : List (List Char) :=
  segments.filterMap fun
    | .plain _ => none
    | .piece text _ => some text

/-- Recognises a placeholder and finds its element among those that were set aside. -/
def placeholder? (elements : Array (List Char)) : Recognizer (List Char) := fun _ s => do
  let opening ← Cut.word? "<\x00" s
  let digits ← Cut.spanSome? Char.isDigit opening.rest
  let closing ← Cut.word? "\x00>" digits.rest
  let index := digits.text.foldl (fun n d => 10 * n + (d.toNat - 0x30)) 0
  let element ← elements[index]?
  return (element, (opening.andThen digits).andThen closing)

/-- Puts the elements back. -/
def restore (elements : List (List Char)) (s : List Char) : List Char :=
  replaceAll (placeholder? elements.toArray) s

/-- The document without its NUL characters. -/
def dropNul (html : List Char) : List Char := html.filter (· != '\x00')

/-- The segments of a document: its shielded elements and the characters between them. -/
def parts (html : List Char) : List (Segment Unit) := segments shielded? (dropNul html)

/-- Changes a document outside its shielded elements. -/
def around (change : List Char → List Char) (html : List Char) : List Char :=
  let parts := parts html
  restore (saved parts) (change (maskFrom 0 parts))

end PagePress.Html.Shield
