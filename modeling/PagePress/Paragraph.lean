import PagePress.Text.Blank
import PagePress.Text.Lines

/-!
Paragraphs of body copy: one per line, without the white space at its ends, blank lines left
out.
-/

namespace PagePress

/-- The paragraphs of a text. -/
def paragraphs (s : List Char) : List (List Char) :=
  ((Text.lines s).map Text.trim).filter fun line => !line.isEmpty

end PagePress
