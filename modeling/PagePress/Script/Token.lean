import PagePress.Text.Blank

/-!
The tokens of a script, as far as they matter for its white space: quoted literals, comments,
runs of white space, and single characters for all else. Regular expressions are not told apart
from divisions.
-/

namespace PagePress.Script

/-- A token of a script with its text. -/
inductive Token where
  | literal (text : List Char)
  | lineComment (text : List Char)
  | blockComment (text : List Char)
  | blank (text : List Char)
  | char (c : Char)
  deriving DecidableEq, Repr

/-- The text of a token. -/
def Token.text : Token → List Char
  | literal s | lineComment s | blockComment s | blank s => s
  | char c => [c]

/-- A mark that opens a literal and closes it again. -/
def isQuote (c : Char) : Bool := c == '\'' || c == '"' || c == '\x60'

/-- The rest of a literal after its opening mark, and what follows it. A backslash takes the next
character with it; a newline cuts a literal short, except one that backquotes enclose. -/
def literalRest (mark : Char) : List Char → List Char × List Char
  | [] => ([], [])
  | ['\\'] => (['\\'], [])
  | '\\' :: c :: rest =>
    let (text, after) := literalRest mark rest
    ('\\' :: c :: text, after)
  | c :: rest =>
    if c = mark then ([c], rest)
    else if c = '\n' && mark != '\x60' then ([], c :: rest)
    else
      let (text, after) := literalRest mark rest
      (c :: text, after)

/-- The rest of a block comment after its opening mark, and what follows it. -/
def commentRest : List Char → List Char × List Char
  | [] => ([], [])
  | '*' :: '/' :: rest => (['*', '/'], rest)
  | c :: rest =>
    let (text, after) := commentRest rest
    (c :: text, after)

theorem literalRest_append (mark : Char) (s : List Char) :
    (literalRest mark s).1 ++ (literalRest mark s).2 = s := by
  fun_induction literalRest mark s <;> simp_all

theorem commentRest_append (s : List Char) : (commentRest s).1 ++ (commentRest s).2 = s := by
  fun_induction commentRest s <;> simp_all

theorem length_le_of_append_eq {a b s : List Char} (h : a ++ b = s) : b.length ≤ s.length := by
  have := congrArg List.length h
  simp only [List.length_append] at this
  omega

/-- The tokens of a script. -/
def tokens : List Char → List Token
  | [] => []
  | '/' :: '/' :: rest =>
    have : (rest.dropWhile (· != '\n')).length ≤ rest.length :=
      (List.dropWhile_suffix _).length_le
    .lineComment ('/' :: '/' :: rest.takeWhile (· != '\n')) :: tokens (rest.dropWhile (· != '\n'))
  | '/' :: '*' :: rest =>
    have := length_le_of_append_eq (commentRest_append rest)
    .blockComment ('/' :: '*' :: (commentRest rest).1) :: tokens (commentRest rest).2
  | c :: rest =>
    if isQuote c then
      have := length_le_of_append_eq (literalRest_append c rest)
      .literal (c :: (literalRest c rest).1) :: tokens (literalRest c rest).2
    else if Text.isBlank c then
      have : (rest.dropWhile Text.isBlank).length ≤ rest.length :=
        (List.dropWhile_suffix _).length_le
      .blank (c :: rest.takeWhile Text.isBlank) :: tokens (rest.dropWhile Text.isBlank)
    else .char c :: tokens rest
termination_by s => s.length
decreasing_by all_goals simp only [List.length_cons]; omega

end PagePress.Script
