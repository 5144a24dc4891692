import PagePress.Text.Hex
import PagePress.Text.Units

/-!
JSON string literals. `literal` writes a text with printable ASCII characters alone and without
the characters that mean something in markup, so that the literal may stand in a script inside
a document. `quoted` writes a text for a JSON file: only quotes, backslashes and control
characters are escaped. `readString?` reads either form, and every other JSON string.
-/

namespace PagePress.Json

/-- The escape of a UTF-16 code unit. -/
def unitEscape (unit : Nat) : List Char := '\\' :: 'u' :: Text.hexDigits 4 unit

/-- The two-character escape of a character that has one. -/
def shortEscape? (c : Char) : Option (List Char) :=
  match c with
  | '"' => some ['\\', '"']
  | '\\' => some ['\\', '\\']
  | '\n' => some ['\\', 'n']
  | '\r' => some ['\\', 'r']
  | '\t' => some ['\\', 't']
  | '\x08' => some ['\\', 'b']
  | '\x0c' => some ['\\', 'f']
  | _ => none

/-- A character that stands for itself in a literal inside a document. -/
def isPlain (c : Char) : Bool :=
  0x20 ≤ c.toNat && c.toNat < 0x7F && !(['<', '>', '&', '\''].contains c)

/-- A character of a literal inside a document. -/
def literalChar (c : Char) : List Char :=
  match shortEscape? c with
  | some escape => escape
  | none => if isPlain c then [c] else (Text.charUnits c).flatMap unitEscape

/-- The literal of a text for a script inside a document. -/
def literal (s : List Char) : List Char := '"' :: s.flatMap literalChar ++ ['"']

/-- A character of a text in a JSON file. -/
def quotedChar (c : Char) : List Char :=
  match shortEscape? c with
  | some escape => escape
  | none => if c.toNat < 0x20 then unitEscape c.toNat else [c]

/-- The text in a JSON file. -/
def quoted (s : List Char) : List Char := '"' :: s.flatMap quotedChar ++ ['"']

/-- The character of a two-character escape. -/
def unescape? (c : Char) : Option Char :=
  match c with
  | '"' => some '"'
  | '\\' => some '\\'
  | '/' => some '/'
  | 'n' => some '\n'
  | 'r' => some '\r'
  | 't' => some '\t'
  | 'b' => some '\x08'
  | 'f' => some '\x0c'
  | _ => none

/-- The character of two UTF-16 surrogates. -/
def joinSurrogates? (high low : Nat) : Option Char :=
  if 0xD800 ≤ high && high < 0xDC00 && 0xDC00 ≤ low && low < 0xE000 then
    some (.ofNat (0x10000 + (high - 0xD800) * 0x400 + (low - 0xDC00)))
  else none

/-- The character of a UTF-16 unit that is no surrogate. -/
def unitChar? (unit : Nat) : Option Char :=
  if 0xD800 ≤ unit && unit < 0xE000 then none else some (.ofNat unit)

/-- Reads the characters of a string up to the closing quote, and what follows it. A surrogate
without its partner spells no character. -/
def readString? : List Char → Option (List Char × List Char)
  | [] => none
  | '"' :: rest => some ([], rest)
  | '\\' :: 'u' :: a :: b :: c :: d :: '\\' :: 'u' :: e :: f :: g :: h :: rest => do
    let unit ← Text.readHex? [a, b, c, d]
    match unitChar? unit with
    | some x =>
      let (s, rest) ← readString? ('\\' :: 'u' :: e :: f :: g :: h :: rest)
      return (x :: s, rest)
    | none =>
      let x ← joinSurrogates? unit (← Text.readHex? [e, f, g, h])
      let (s, rest) ← readString? rest
      return (x :: s, rest)
  | '\\' :: 'u' :: a :: b :: c :: d :: rest => do
    let x ← unitChar? (← Text.readHex? [a, b, c, d])
    let (s, rest) ← readString? rest
    return (x :: s, rest)
  | '\\' :: c :: rest => do
    let x ← unescape? c
    let (s, rest) ← readString? rest
    return (x :: s, rest)
  | c :: rest => do
    let (s, rest) ← readString? rest
    return (c :: s, rest)

/-- The text that a string literal spells, if the literal is all there is. -/
def ofLiteral? : List Char → Option (List Char)
  | '"' :: rest =>
    match readString? rest with
    | some (s, []) => some s
    | _ => none
  | _ => none

end PagePress.Json
