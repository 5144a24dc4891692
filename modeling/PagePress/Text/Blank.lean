/-!
White space and its removal at the two ends of a text.
-/

namespace PagePress.Text

/-- White space: tab to carriage return, the four separator controls, the space, the next-line
control and the spaces and line separators beyond ASCII. -/
def isBlank (c : Char) : Bool :=
  let n := c.toNat
  (0x09 ≤ n && n ≤ 0x0D) || (0x1C ≤ n && n ≤ 0x20) || n == 0x85 || n == 0xA0 || n == 0x1680 ||
    (0x2000 ≤ n && n ≤ 0x200A) || n == 0x2028 || n == 0x2029 || n == 0x202F || n == 0x205F ||
    n == 0x3000

def trimStart (s : List Char) : List Char := s.dropWhile isBlank

def trimEnd (s : List Char) : List Char := (s.reverse.dropWhile isBlank).reverse

/-- The text without the white space at its two ends. -/
def trim (s : List Char) : List Char := trimEnd (trimStart s)

/-- The text without the white space at its two ends. -/
def trimmed (s : String) : String := .ofList (trim s.toList)

/-- The trimmed text, or nothing when only white space is there. -/
def nonBlank? (s : String) : Option String :=
  if (trim s.toList).isEmpty then none else some (trimmed s)

end PagePress.Text
