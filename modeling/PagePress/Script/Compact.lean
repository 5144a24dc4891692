import PagePress.Script.Token

/-!
A script in fewer characters: comments go, and what is left of a gap between two tokens is a
newline if the gap had one, so that a statement may still end there, a space if it had none, and
nothing at all next to the marks that separate tokens by themselves.
-/

namespace PagePress.Script

/-- What stands between two tokens. -/
inductive Gap where
  | none
  | space
  | newline
  deriving DecidableEq, Repr

namespace Gap

def text : Gap → List Char
  | none => []
  | space => [' ']
  | newline => ['\n']

/-- The gap after white space or a comment that holds `text`. -/
def widen (gap : Gap) (text : List Char) : Gap :=
  if text.contains '\n' then newline else if gap = none then space else gap

end Gap

/-- No gap is needed after these. -/
def isOpener (c : Char) : Bool := ['{', ';', ',', '(', '['].contains c

/-- No gap is needed before these. -/
def isCloser (c : Char) : Bool := ['}', ')', ';', ',', ']'].contains c

/-- No space is needed after these. -/
def isTightAfter (c : Char) : Bool := ['=', ':'].contains c

/-- No space is needed before these. -/
def isTightBefore (c : Char) : Bool := ['=', ':', '{'].contains c

/-- What is left of a gap between two characters; nothing is before the first token. -/
def separator (before : Option Char) (after : Char) (gap : Gap) : List Char :=
  match before with
  | none => []
  | some b =>
    if isOpener b || isCloser after then []
    else if gap = .space && (isTightAfter b || isTightBefore after) then []
    else gap.text

/-- Joins tokens after the character `before`, with `gap` still to be written. -/
def joinFrom (before : Option Char) (gap : Gap) : List Token → List Char
  | [] => []
  | .lineComment _ :: rest => joinFrom before gap rest
  | .blockComment text :: rest | .blank text :: rest => joinFrom before (gap.widen text) rest
  | .literal text :: rest =>
    match text with
    | [] => joinFrom before gap rest
    | c :: _ => separator before c gap ++ text ++ joinFrom (text.getLast?.or before) .none rest
  | .char c :: rest => separator before c gap ++ c :: joinFrom (some c) .none rest

/-- A script without comments and superfluous white space. -/
def compact (source : List Char) : List Char := joinFrom none .none (tokens source)

end PagePress.Script
