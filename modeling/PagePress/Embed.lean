import PagePress.Text.Scan

/-!
Text that is embedded in an element of a document. A script or a stylesheet must not spell the
end tag of its own element, and a script must not spell the marks of a comment. A backslash in
the middle of each such word changes nothing for the reader of the script, since a string
literal ignores it.
-/

namespace PagePress.Embed

open Text

/-- Recognises `</` and an element's name in any case, and puts a backslash before the slash. -/
def endTag (name : String) : Recognizer (List Char) := fun _ s => do
  let opening ← Cut.word? "</" s
  let tag ← Cut.wordAnyCase? name opening.rest
  return ("<\\/".toList ++ tag.text, opening.andThen tag)

/-- Recognises a fixed word and puts another one in its place. -/
def fixedWord (word replacement : String) : Recognizer (List Char) := fun _ s =>
  (Cut.word? word s).map fun k => (replacement.toList, k)

/-- The text of a script, safe inside a script element. -/
def script (s : List Char) : List Char :=
  let s := replaceAll (endTag "script") s
  let s := replaceAll (fixedWord "<!--" "<\\!--") s
  replaceAll (fixedWord "-->" "--\\>") s

/-- The text of a stylesheet, safe inside a style element. -/
def style (s : List Char) : List Char := replaceAll (endTag "style") s

end PagePress.Embed
