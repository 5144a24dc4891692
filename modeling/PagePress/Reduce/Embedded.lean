import PagePress.Html.Tag
import PagePress.Script.Compact
import PagePress.Stylesheet.Compact

/-!
Stylesheets and scripts inside a document: each is written in fewer characters, and a script that
only refers to a file is left alone.
-/

namespace PagePress.Reduce

open Text Html

/-- Recognises a style element and compacts its stylesheet. -/
def styleElement? : Recognizer (List Char) := fun _ s =>
  (element? "style" s).map fun e =>
    (e.opening.text ++ Stylesheet.compact e.body.text ++ e.closing.text, e.cut)

/-- The document with its stylesheets compacted. -/
def compactStyles (html : List Char) : List Char := replaceAll styleElement? html

/-- The attributes of a script name a file. -/
def namesFile (attributes : List Char) : Bool :=
  occurs (fun before t => startsWord before &&
    match Cut.wordAnyCase? "src" t with
    | some k => (k.rest.dropWhile isBlank).head? == some '='
    | none => false) none attributes

/-- Recognises a script element and compacts its script, if it has one of its own. -/
def scriptElement? : Recognizer (List Char) := fun _ s =>
  (element? "script" s).map fun e =>
    if namesFile (tagBody "script" e.opening.text) then (e.cut.text, e.cut)
    else (e.opening.text ++ Script.compact e.body.text ++ e.closing.text, e.cut)

/-- The document with its scripts compacted. -/
def compactScripts (html : List Char) : List Char := replaceAll scriptElement? html

end PagePress.Reduce
