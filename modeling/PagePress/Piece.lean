import PagePress.Html.Escape
import PagePress.Json.Literal
import PagePress.Percent

/-!
Pieces of output. A layout is a list of pieces: the fixed text of the layout itself, and values,
each written in the encoding that its place needs.
-/

namespace PagePress

/-- A piece of output. -/
inductive Piece where
  /-- Text of the layout. -/
  | fixed (s : String)
  /-- A value where markup is read. -/
  | escaped (s : String)
  /-- A value that is inserted as it is. -/
  | raw (s : String)
  /-- A value that a script reads as a string literal. -/
  | literal (s : String)
  /-- A value inside an address, where markup is read. -/
  | address (s : String)
  deriving DecidableEq, Repr

namespace Piece

/-- The piece as it is written. -/
def text : Piece → List Char
  | fixed s | raw s => s.toList
  | escaped s => Html.escape s.toList
  | literal s => Json.literal s.toList
  | address s => Html.escape (Percent.encode s.toList)

/-- Some pieces as they are written. -/
def textAll (pieces : List Piece) : List Char := pieces.flatMap text

end Piece

end PagePress
