import PagePress.Text.Hex
import PagePress.Yaml.Cursor

/-!
What stands in front of a node or a document: anchors and aliases, tags, and directives, as they
are written.
-/

namespace PagePress.Yaml

/-! ### Anchors -/

/-- A character that is neither a blank nor a control character. -/
def isVisible (c : Char) : Bool :=
  let n := c.toNat
  (0x21 ≤ n && n ≤ 0x7E) || (0xA0 ≤ n && n ≤ 0xD7FF) ||
    (0xE000 ≤ n && n ≤ 0xFFFD && c != orderMark) || 0x10000 ≤ n

/-- A character of the name of an anchor. -/
def isAnchorChar (c : Char) : Bool :=
  isVisible c && !([',', '[', ']', '\x7b', '\x7d'].contains c)

/-- The text that follows the name of an anchor. -/
def endsAnchor (s : List Char) : Bool :=
  s.head?.all fun c =>
    isGap c || ['?', ':', ',', '[', ']', '\x7b', '\x7d', '%', '@', '\x60'].contains c

/-- Reads the name of an anchor or an alias after its mark. -/
def anchorName (k : Cursor) : Except Error (String × Cursor) :=
  let name := k.rest.takeWhile isAnchorChar
  let after := k.skip name.length
  if name.isEmpty || !endsAnchor after.rest then .error .unexpectedCharacter
  else .ok (.ofList name, after)

/-! ### Tags -/

/-- A character of a tag. In the first version of the language a number sign is none. -/
def isTagChar (version : Version) (c : Char) : Bool :=
  c.isAlphanum || "-;/?:@&=+$,_.!~*'()[]%".toList.contains c || (version == .second && c == '#')

/-- The octets that a run of percent escapes spells, and what follows it. -/
def percentOctets : (fuel : Nat) → Cursor → Except Error (List UInt8 × Cursor)
  | 0, k => .ok ([], k)
  | fuel + 1, k =>
    match k.rest with
    | '%' :: rest => do
      let ds := rest.take 2
      let some n := if ds.length = 2 then Text.readHex? ds else none | throw .badEscape
      let (octets, after) ← percentOctets fuel (k.skip 3)
      return (n.toUInt8 :: octets, after)
    | _ => .ok ([], k)

/-- Reads the characters of a tag, with their escapes resolved. -/
def tagChars (version : Version) : (fuel : Nat) → Cursor → Except Error (List Char × Cursor)
  | 0, k => .ok ([], k)
  | fuel + 1, k => do
    match k.rest with
    | '%' :: _ =>
      let (octets, k) ← percentOctets fuel k
      let some word := String.fromUTF8? ⟨octets.toArray⟩ | throw .badEscape
      let (more, k) ← tagChars version fuel k
      return (word.toList ++ more, k)
    | c :: _ =>
      if isTagChar version c then
        let (more, k) ← tagChars version fuel k.next
        return (c :: more, k)
      else return ([], k)
    | [] => return ([], k)

/-- Reads the part of a tag that names something, which may not be empty. -/
def tagWord (version : Version) (k : Cursor) : Except Error (String × Cursor) := do
  let (word, after) ← tagChars version (k.rest.length + 1) k
  if after.index = k.index then throw .unexpectedCharacter
  return (.ofList word, after)

/-- A character of the name of a tag's handle. -/
def isHandleChar (c : Char) : Bool := c.isAlphanum || c == '-' || c == '_'

/-- Reads a handle: an exclamation mark, or a name between two of them. -/
def tagHandle (k : Cursor) : Except Error (String × Cursor) :=
  match k.rest with
  | '!' :: ' ' :: _ => .ok ("!", k.next)
  | '!' :: rest =>
    let name := rest.takeWhile isHandleChar
    if (rest.drop name.length).head? == some '!' then
      .ok (.ofList ('!' :: name ++ ['!']), k.skip (name.length + 2))
    else .error .unexpectedCharacter
  | _ => .error .unexpectedCharacter

/-- A tag as it is written: behind a handle, or in full. -/
structure WrittenTag where
  handle : Option String
  word : String
  deriving DecidableEq, Repr

/-- Another exclamation mark follows in this word. -/
def bangAhead : List Char → Bool
  | [] => false
  | c :: rest => if c == ' ' || isBreak c then false else c == '!' || bangAhead rest

/-- Reads the tag that begins here. -/
def writtenTag (version : Version) (k : Cursor) : Except Error (WrittenTag × Cursor) := do
  let (tag, after) ← match k.rest.tail with
    | '<' :: _ =>
      let (word, after) ← tagWord version (k.skip 2)
      if !after.isAt '>' then throw .unexpectedCharacter
      pure (⟨none, word⟩, after.next)
    | rest =>
      if gapAhead rest then pure (⟨none, "!"⟩, k.next)
      else if bangAhead rest then
        let (handle, after) ← tagHandle k
        let (word, after) ← tagWord version after
        pure (⟨some handle, word⟩, after)
      else
        let (word, after) ← tagWord version k.next
        pure (⟨some "!", word⟩, after)
  if spaceAhead after.rest then return (tag, after) else throw .unexpectedCharacter

/-! ### Directives -/

/-- A directive in front of a document. -/
inductive Directive where
  | version (major minor : Nat)
  /-- What a handle of tags stands for. -/
  | handle (name start : String)
  | other
  deriving DecidableEq, Repr

/-- Reads a number of a version. -/
def versionNumber (k : Cursor) : Except Error (Nat × Cursor) :=
  let ds := k.rest.takeWhile Char.isDigit
  if ds.isEmpty then .error .badDirective
  else .ok (Number.decimalValue ds, k.skip ds.length)

/-- Reads the rest of a directive after its name. -/
def directiveValue (version : Version) (name : List Char) (k : Cursor) :
    Except Error (Directive × Cursor) := do
  if name == "YAML".toList then
    let (major, k) ← versionNumber (k.skipWhile (· == ' '))
    if !k.isAt '.' then throw .badDirective
    let (minor, k) ← versionNumber k.next
    if spaceAhead k.rest then return (.version major minor, k) else throw .badDirective
  else if name == "TAG".toList then
    let (handle, k) ← tagHandle (k.skipWhile (· == ' '))
    if !k.isAt ' ' then throw .badDirective
    let (start, k) ← tagWord version (k.skipWhile (· == ' '))
    if spaceAhead k.rest then return (.handle handle start, k) else throw .badDirective
  else return (.other, k.skipWhile (!isBreak ·))

/-- Reads the directive that begins here and the rest of its line. -/
def directive (version : Version) (k : Cursor) : Except Error (Directive × Cursor) := do
  let k := k.next
  let name := k.rest.takeWhile fun c => isHandleChar c || c == ':' || c == '.'
  let after := k.skip name.length
  if name.isEmpty || !spaceAhead after.rest then throw .badDirective
  let (d, after) ← directiveValue version name after
  return (d, ← after.endLine)

end PagePress.Yaml
