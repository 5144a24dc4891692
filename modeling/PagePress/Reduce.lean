import PagePress.Reduce.Attributes
import PagePress.Reduce.Blanks
import PagePress.Reduce.Comments
import PagePress.Reduce.Embedded
import PagePress.Reduce.Images
import PagePress.Reduce.Metas

/-!
The reduction of a document: seven passes over its text, each made on the result of the one
before.
-/

namespace PagePress

/-- A pass of the reduction. -/
inductive Reduction where
  | comments
  | blanks
  | styles
  | scripts
  | emptyAttributes
  | metas
  | images
  deriving DecidableEq, Repr

namespace Reduction

/-- The passes in the order in which they are made. -/
def all : List Reduction :=
  [comments, blanks, styles, scripts, emptyAttributes, metas, images]

/-- The name of a pass in reports. -/
def name : Reduction → String
  | comments => "strip_comments"
  | blanks => "collapse_whitespace"
  | styles => "minify_styles"
  | scripts => "minify_scripts"
  | emptyAttributes => "drop_empty_attributes"
  | metas => "dedupe_meta"
  | images => "hint_images"

def apply : Reduction → List Char → List Char
  | comments => Reduce.stripComments
  | blanks => Reduce.collapseBlanks
  | styles => Reduce.compactStyles
  | scripts => Reduce.compactScripts
  | emptyAttributes => Reduce.dropEmptyAttributes
  | metas => Reduce.dedupeMetas
  | images => Reduce.hintImages

/-- The texts after each of some passes, every one made on the result of the one before. -/
def trace (passes : List Reduction) (html : List Char) : List (Reduction × List Char) :=
  match passes with
  | [] => []
  | pass :: rest =>
    let next := pass.apply html
    (pass, next) :: trace rest next

end Reduction

/-- The document after all passes. -/
def reduce (html : List Char) : List Char :=
  Reduction.all.foldl (fun text pass => pass.apply text) html

end PagePress
