/-!
Character references: how a text is written where markup is read.
-/

namespace PagePress.Html

/-- A character in a place where markup is read. -/
def escapeChar (c : Char) : List Char :=
  match c with
  | '&' => "&amp;".toList
  | '<' => "&lt;".toList
  | '>' => "&gt;".toList
  | '\'' => "&#39;".toList
  | '"' => "&#34;".toList
  | _ => [c]

/-- A text in a place where markup is read. -/
def escape (s : List Char) : List Char := s.flatMap escapeChar

end PagePress.Html
