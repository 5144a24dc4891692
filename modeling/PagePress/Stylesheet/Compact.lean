import PagePress.Text.Blank
import PagePress.Text.Digit
import PagePress.Text.Scan
import PagePress.Text.Word

/-!
A stylesheet in fewer characters: comments go, white space is squeezed and dropped around
punctuation and after a colon, the last semicolon of a block goes, and so do the zeros before a
decimal point.
-/

namespace PagePress.Stylesheet

open Text

/-- Recognises a comment. -/
def comment? : Recognizer (List Char) := fun _ s => do
  let opening ← Cut.word? "/*" s
  let body ← Cut.before? (fun t => (Cut.word? "*/" t).isSome) opening.rest
  let closing ← Cut.word? "*/" body.rest
  return ([], (opening.andThen body).andThen closing)

/-- Recognises a run of white space, which one space replaces. -/
def blanks? : Recognizer (List Char) := fun _ s =>
  (Cut.spanSome? isBlank s).map fun k => ([' '], k)

/-- A mark that needs no white space around it. -/
def isPunctuation (c : Char) : Bool := ['{', '}', ';', ',', '>'].contains c

/-- Recognises a mark with the white space around it, and keeps the mark. -/
def punctuation? : Recognizer (List Char) := fun _ s => do
  let left := Cut.span isBlank s
  let mark ← Cut.char? isPunctuation left.rest
  let right := Cut.span isBlank mark.rest
  return (mark.text, (left.andThen mark).andThen right)

/-- Recognises a colon with white space after it. -/
def colon? : Recognizer (List Char) := fun _ s => do
  let mark ← Cut.char? (· == ':') s
  let space ← Cut.spanSome? isBlank mark.rest
  return ([':'], mark.andThen space)

/-- Recognises a semicolon at the end of a block. -/
def lastSemicolon? : Recognizer (List Char) := fun _ s =>
  (Cut.word? ";\x7d" s).map fun k => (['}'], k)

/-- A zero after this character belongs to a longer name or number. -/
def continues (c : Char) : Bool := isWord c || c == '.' || c == '#' || c == '-'

/-- Recognises zeros before a decimal point and the digits after it, and drops the zeros. -/
def leadingZeros? : Recognizer (List Char) := fun before s => do
  if before.any continues then none
  else
    let zeros ← Cut.spanSome? (· == '0') s
    let point ← Cut.char? (· == '.') zeros.rest
    let digits ← Cut.spanSome? isDigit point.rest
    return (point.text ++ digits.text, (zeros.andThen point).andThen digits)

/-- A stylesheet without comments and superfluous characters. -/
def compact (css : List Char) : List Char :=
  let s := replaceAll comment? css
  let s := replaceAll blanks? s
  let s := replaceAll punctuation? s
  let s := replaceAll colon? s
  let s := replaceAll lastSemicolon? s
  let s := replaceAll leadingZeros? s
  trim s

end PagePress.Stylesheet
