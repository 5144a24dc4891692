import PagePress.Calendar
import PagePress.Number.Numeral

/-!
A place in the text of a YAML document, with what the layout rules of the language depend on: the
line and the column.
-/

namespace PagePress.Yaml

/-- Why a text is no YAML document that can be read. -/
inductive Error where
  | forbiddenCharacter
  | unexpectedCharacter
  | unclosed
  | badEscape
  | badIndentation
  | misplacedKey
  | unexpectedToken
  | duplicateKey
  | badKey
  | badMerge
  | unknownAlias
  | unknownTag
  /-- A tag that does not fit the node that has it. -/
  | unfitTag
  | badOctets
  | severalDocuments
  | badDirective
  /-- A version of the language that is not known. -/
  | unknownVersion
  | tooDeep
  /-- A date or a time that the calendar does not have. -/
  | calendar (e : Calendar.Error)
  /-- A moment after the last year. -/
  | pastCalendar
  /-- A text that is no whole number in a base. -/
  | badInteger (base : Nat) (text : List Char)
  /-- A whole number with too many digits. -/
  | longInteger (digits : Nat)
  | badFloat (text : List Char)
  /-- Nothing where a number has to be. -/
  | emptyNumber
  /-- A word that is no truth value. -/
  | badTruth
  /-- An escape for a number beyond the last character. -/
  | badCodePoint
  /-- An escape for a number that no code could ever have. -/
  | hugeCodePoint
  /-- A key that holds something that can change. -/
  | changingKey
  /-- A key that an ordered mapping has already. -/
  | repeatedEntry
  deriving DecidableEq, Repr

def Error.message : Error → String
  | forbiddenCharacter => "a character that may not stand in a document"
  | unexpectedCharacter => "an unexpected character"
  | unclosed => "a bracket or a quote is not closed"
  | badEscape => "an unknown escape"
  | badIndentation => "bad indentation"
  | misplacedKey => "a key where none may stand"
  | unexpectedToken => "an unexpected mark"
  | duplicateKey => "a key is given twice"
  | badKey => "a value that cannot be a key"
  | badMerge => "only mappings can be merged"
  | unknownAlias => "an alias without an anchor"
  | unknownTag => "an unknown tag"
  | unfitTag => "a tag that does not fit"
  | badOctets => "no octets in base 64"
  | severalDocuments => "more than one document"
  | badDirective => "a bad directive"
  | unknownVersion => "an unknown version of the language"
  | tooDeep => "nested too deeply"
  | calendar e => e.message
  | pastCalendar => "a moment after the last year"
  | badInteger base text =>
    "invalid literal for int() with base " ++ toString base ++ ": " ++
      .ofList ((Text.quote text).take 200)
  | longInteger digits =>
    "Exceeds the limit (" ++ toString Number.maxDigits ++
      ") for integer string conversion: value has " ++ toString digits ++
      " digits; use sys.set_int_max_str_digits() to increase the limit"
  | badFloat text => "could not convert string to float: " ++ .ofList (Text.quote text)
  | emptyNumber => "a number without digits"
  | badTruth => "no truth value"
  | badCodePoint => "chr() arg not in range(0x110000)"
  | hugeCodePoint => "a code that no character could have"
  | changingKey => "a key that can change"
  | repeatedEntry => "an entry is given twice"

/-- The two versions of the language. -/
inductive Version where
  | first
  | second
  deriving DecidableEq, Repr

/-! ### Characters -/

/-- A blank inside a line. -/
def isBlank (c : Char) : Bool := c == ' ' || c == '\t'

/-- A character that ends a line. -/
def isBreak (c : Char) : Bool := c == '\n' || c == '\u0085' || c == '\u2028' || c == '\u2029'

/-- A blank or the end of a line. -/
def isGap (c : Char) : Bool := isBlank c || isBreak c

/-- The text of the end of a line: separators of lines and paragraphs stay what they are. -/
def breakText (c : Char) : Char := if c == '\u0085' then '\n' else c

/-- The text begins with a blank or the end of a line, or nothing is left. -/
def gapAhead (s : List Char) : Bool := s.head?.all isGap

/-- The text begins with the end of a line, or nothing is left. -/
def endAhead (s : List Char) : Bool := s.head?.all isBreak

/-- A space or the end of a line stands here, or nothing is left. -/
def spaceAhead (s : List Char) : Bool := s.head?.all fun c => c == ' ' || isBreak c

/-- The text begins with the given mark of a document. -/
def markAhead (mark : Char) : List Char → Bool
  | a :: b :: c :: rest => a == mark && b == mark && c == mark && gapAhead rest
  | _ => false

/-- The text begins with the mark that starts or ends a document. -/
def markerAhead (s : List Char) : Bool := markAhead '-' s || markAhead '.' s

/-- The mark of the order of octets. -/
def orderMark : Char := '\ufeff'

/-! ### Places -/

/-- A place in a text: what is left of it, and where that begins. -/
structure Cursor where
  rest : List Char
  column : Nat := 0
  line : Nat := 0
  /-- How many characters stand before the place. -/
  index : Nat := 0

namespace Cursor

/-- The place after the next character. Only a line feed starts a new line, and the mark of the
order of octets takes no room. -/
def next (k : Cursor) : Cursor :=
  match k.rest with
  | [] => k
  | c :: rest =>
    if c == '\n' then ⟨rest, 0, k.line + 1, k.index + 1⟩
    else ⟨rest, if c == orderMark then k.column else k.column + 1, k.line, k.index + 1⟩

/-- The place `n` characters on. -/
def skip (k : Cursor) : Nat → Cursor
  | 0 => k
  | n + 1 => k.next.skip n

/-- The place after a run of characters that satisfy `p`. -/
def skipWhile (p : Char → Bool) (k : Cursor) : Cursor := k.skip (k.rest.takeWhile p).length

/-- The place after the end of a line, if one stands here. -/
def skipBreak (k : Cursor) : Cursor := if k.rest.head?.any isBreak then k.next else k

/-- The given character stands here. -/
def isAt (c : Char) (k : Cursor) : Bool := k.rest.head? == some c

/-- The mark of a document stands at the start of this line. -/
def atMarker (mark : Char) (k : Cursor) : Bool := k.column == 0 && markAhead mark k.rest

/-- Skips the rest of a line, if it holds a comment or nothing at all. -/
def endLine (k : Cursor) : Except Error Cursor :=
  let k := k.skipWhile (· == ' ')
  let k := if k.isAt '#' then k.skipWhile (!isBreak ·) else k
  if endAhead k.rest then .ok k.skipBreak else .error .unexpectedCharacter

end Cursor

/-- A scalar as it is read: its text, and the place after it. -/
structure Lexeme where
  text : List Char
  after : Cursor

end PagePress.Yaml
