import PagePress.Yaml.Plain

/-!
Quoted scalars. Inside quotes the end of a line and the blanks around it become one space, and an
empty line a line feed. Between double quotes a backslash starts an escape; between single quotes a
quote is written twice.
-/

namespace PagePress.Yaml

/-- The kind of quotes. -/
inductive Quotes where
  | single
  | double
  deriving DecidableEq, Repr

def Quotes.mark : Quotes → Char
  | single => '\''
  | double => '"'

/-- The character of a one-letter escape. -/
def escape? (c : Char) : Option Char :=
  let table : List (Char × Char) :=
    [('0', '\x00'), ('a', '\x07'), ('b', '\x08'), ('t', '\t'), ('\t', '\t'), ('n', '\n'),
      ('v', '\x0b'), ('f', '\x0c'), ('r', '\r'), ('e', '\x1b'), (' ', ' '), ('"', '"'), ('/', '/'),
      ('\\', '\\'), ('N', '\u0085'), ('_', '\u00a0'), ('L', '\u2028'), ('P', '\u2029')]
  table.lookup c

/-- How many digits the escape of a code point has. -/
def escapeWidth? (c : Char) : Option Nat :=
  if c = 'x' then some 2 else if c = 'u' then some 4 else if c = 'U' then some 8 else none

/-- The number that an escape spells after its letter, and how many characters it takes. -/
def codeOf? (s : List Char) : Option (Nat × Nat) := do
  let c ← s.head?
  let width ← escapeWidth? c
  let ds := s.tail.take width
  if ds.length = width then return (← Text.readHex? ds, width + 1) else none

/-- The character that an escape of a code point stands for, and how many characters it takes
after the backslash. Two surrogates that follow each other are one character. -/
def codePoint (s : List Char) : Except Error (Char × Nat) :=
  match codeOf? s with
  | none => .error .badEscape
  | some (high, taken) =>
    if 0x80000000 ≤ high then .error .hugeCodePoint
    else if 0x110000 ≤ high then .error .badCodePoint
    else if high.isValidChar then .ok (.ofNat high, taken)
    else
      match s.drop taken with
      | '\\' :: rest =>
        match codeOf? rest with
        | some (low, more) =>
          if high < 0xDC00 && 0xDC00 ≤ low && low < 0xE000 then
            .ok (.ofNat (0x10000 + (high - 0xD800) * 0x400 + (low - 0xDC00)), taken + 1 + more)
          else .error .badEscape
        | none => .error .badEscape
      | _ => .error .badEscape

/-- The ends of lines at this place, with the blanks in front of and behind them. No line may
begin with the mark of a document. -/
def quotedBreaks : (fuel : Nat) → Cursor → Except Error (List Char × Cursor)
  | 0, k => .ok ([], k)
  | fuel + 1, k => do
    if markerAhead k.rest then throw .unclosed
    let k := k.skipWhile isBlank
    match k.rest with
    | c :: _ =>
      if isBreak c then
        let (more, after) ← quotedBreaks fuel k.next
        return (breakText c :: more, after)
      else return ([], k)
    | [] => return ([], k)

/-- What has been read of a quoted scalar: its text in reverse and the place after it. -/
structure QuotedState where
  text : List Char := []
  place : Cursor

namespace QuotedState

/-- Adds a character that took `n` characters to write. -/
def add (s : QuotedState) (n : Nat) (c : Char) : QuotedState := ⟨c :: s.text, s.place.skip n⟩

/-- Adds blanks, or the end of a line with everything that is folded into it. -/
def addGap (fuel : Nat) (s : QuotedState) : Except Error QuotedState := do
  let blanks := s.place.rest.takeWhile isBlank
  let k := s.place.skip blanks.length
  match k.rest with
  | [] => throw .unclosed
  | c :: _ =>
    if isBreak c then
      let (more, k) ← quotedBreaks fuel k.next
      return ⟨(fold c more).reverse ++ s.text, k⟩
    else return ⟨blanks.reverse ++ s.text, k⟩

/-- Adds what an escape stands for. -/
def addEscape (fuel : Nat) (s : QuotedState) : Except Error QuotedState := do
  match s.place.rest.tail with
  | [] => throw .badEscape
  | c :: rest =>
    match escape? c with
    | some x => return s.add 2 x
    | none =>
      if isBreak c then
        let (more, k) ← quotedBreaks fuel (s.place.skip 2)
        return ⟨more.reverse ++ s.text, k⟩
      else
        let (x, taken) ← codePoint (c :: rest)
        return s.add (taken + 1) x

end QuotedState

/-- Reads a scalar after its opening quote. -/
def readQuoted (quotes : Quotes) : (fuel : Nat) → QuotedState → Except Error QuotedState
  | 0, _ => .error .unclosed
  | fuel + 1, s => do
    match s.place.rest with
    | [] => throw .unclosed
    | c :: rest =>
      if isGap c then readQuoted quotes fuel (← s.addGap fuel)
      else if c = quotes.mark then
        if quotes = .single && rest.head? == some '\'' then readQuoted quotes fuel (s.add 2 c)
        else return ⟨s.text, s.place.next⟩
      else if c = '\\' && quotes = .double then readQuoted quotes fuel (← s.addEscape fuel)
      else readQuoted quotes fuel (s.add 1 c)

/-- Reads the quoted scalar that begins here. The fuel has to exceed the number of characters that
are left. -/
def quotedScalar (quotes : Quotes) (fuel : Nat) (k : Cursor) : Except Error Lexeme := do
  let s ← readQuoted quotes fuel { place := k.next }
  return ⟨s.text.reverse, s.place⟩

end PagePress.Yaml
