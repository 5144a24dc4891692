import PagePress.Text.LowerTable
import PagePress.Text.Ranges

/-!
Letter case. `lower` is the full lower-casing of a text: a capital sigma at the end of a word
takes its final form, and a capital I with a dot becomes two characters. `sameLetter` and
`sameCaseless` are the two comparisons used when names in markup are recognised: the first one
against a fixed ASCII letter, the second one against a letter found earlier in the text.
-/

namespace PagePress.Text

/-- The lower-case form of a character that has one of its own, one character long. -/
def lowerChar (c : Char) : Char :=
  if c.toNat < 0x80 then c.toLower
  else match findRange? (·.1) (·.2.1) capitalRuns c.toNat with
    | some (first, _, step, shift) =>
      if (c.toNat - first) % step = 0 then .ofNat (c.toNat + shift).toNat else c
    | none => c

def isCaseIgnorable (c : Char) : Bool := covers caseIgnorableRanges c.toNat

def isCased (c : Char) : Bool := covers casedRanges c.toNat

/-- A cased letter follows, possibly after characters that are looked through. -/
def casedFollows (s : List Char) : Bool := (s.dropWhile isCaseIgnorable).head?.any isCased

/-- Lower-cases `s`; `inWord` tells whether a cased letter stands before it, possibly with
characters in between that are looked through. -/
def lowerFrom (inWord : Bool) : List Char → List Char
  | [] => []
  | c :: rest =>
    if c.toNat < 0x80 then
      c.toLower :: lowerFrom (if isCaseIgnorable c then inWord else c.isAlpha) rest
    else
      let inWord' := if isCaseIgnorable c then inWord else isCased c
      if c = 'Σ' then
        (if inWord && !casedFollows rest then 'ς' else 'σ') :: lowerFrom inWord' rest
      else if c = 'İ' then 'i' :: '\u0307' :: lowerFrom inWord' rest
      else lowerChar c :: lowerFrom inWord' rest

/-- The full lower-casing of a text. -/
def lower (s : List Char) : List Char := lowerFrom false s

/-- The full lower-casing of a text. -/
def lowered (s : String) : String := .ofList (lower s.toList)

/-- What is left of a letter when case is ignored: ASCII letters lose it, the dotted capital I
and the Kelvin sign count as capitals of `i` and `k`. -/
def caseless (c : Char) : Char :=
  if c = 'İ' then 'i' else if c = '\u212A' then 'k' else c.toLower

/-- Two characters of the text agree up to case. -/
def sameCaseless (a b : Char) : Bool := caseless a == caseless b

/-- The character counts as the lower-case ASCII letter `letter` in either case. The long s
and the dotless i count as forms of `s` and `i` too. -/
def sameLetter (letter c : Char) : Bool :=
  caseless c == letter || (letter == 's' && c == 'ſ') || (letter == 'i' && c == 'ı')

end PagePress.Text
