import PagePress.Inspect.Markup
import PagePress.Number.Rounding
import PagePress.Text.Units

/-!
A rough estimate of what a document costs to load over a slow connection.
-/

namespace PagePress

/-- What a report recommends. -/
inductive Recommendation where
  | reduceDocument
  | reduceStyles
  | reduceScripts
  | reduceImages
  | good
  | moderate
  | poor
  deriving DecidableEq, Repr

def Recommendation.message : Recommendation → String
  | reduceDocument => "Consider reducing HTML size; currently over 100KB"
  | reduceStyles => "CSS size is large; consider removing unused styles"
  | reduceScripts => "JavaScript size is large; consider trimming scripts"
  | reduceImages => "Many images detected; consider fewer or smaller ones"
  | good => "Good performance; page should load quickly"
  | moderate => "Moderate performance; consider minor optimizations"
  | poor => "Performance needs improvement"

/-- The size of a document in bytes, those of its stylesheets and scripts in characters, the
number of its images and the seconds it takes to load. -/
structure LoadReport where
  size : Nat
  styleSize : Nat
  scriptSize : Nat
  imageCount : Nat
  seconds : Nat
  recommendations : List Recommendation
  deriving DecidableEq, Repr

namespace LoadReport

open Text Html

/-- Recognises everything from the start of an opening tag to the first closing tag, and gives
its length. -/
def blockSize? (name : String) : Recognizer Nat := fun _ s => do
  let start ← tagStart? name s
  let close := fun t => closeTag? sameLetter name.toList t
  let body ← Cut.before? (fun t => (close t).isSome) start.rest
  let closing ← close body.rest
  let k := (start.andThen body).andThen closing
  return (k.text.length, k)

/-- How many characters all elements of a name take. -/
def blockSizes (name : String) (html : List Char) : Nat :=
  (findAll (blockSize? name) html).foldl (· + ·) 0

/-- What a report with these numbers recommends. -/
def advise (size styleSize scriptSize imageCount seconds : Nat) : List Recommendation :=
  (if 100 * 1024 < size then [.reduceDocument] else []) ++
    (if 50 * 1024 < styleSize then [.reduceStyles] else []) ++
    (if 30 * 1024 < scriptSize then [.reduceScripts] else []) ++
    (if 10 < imageCount then [.reduceImages] else []) ++
    [if seconds < 2 then .good else if seconds < 5 then .moderate else .poor]

/-- The report on a document: it loads two kilobytes in a second. -/
def ofDocument (html : List Char) : LoadReport :=
  let size := byteSize html
  let styleSize := blockSizes "style" html
  let scriptSize := blockSizes "script" html
  let imageCount := (findAll (Inspect.tag? "img") html).length
  let seconds := Number.roundHalfEven size 2048
  { size, styleSize, scriptSize, imageCount, seconds,
    recommendations := advise size styleSize scriptSize imageCount seconds }

end LoadReport

end PagePress
