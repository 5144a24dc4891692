import PagePress.Yaml.Cursor

/-!
Plain scalars as they stand in a document: words without quotes, which may go on over several
lines as long as these are indented.
-/

namespace PagePress.Yaml

/-- What is around a scalar: the version of the language, whether it stands inside brackets, and
the indentation of the block around it. -/
structure Surroundings where
  version : Version
  inBrackets : Bool
  indent : Int

/-- The characters that a plain scalar never begins with. Three of them may begin one if no gap
follows. -/
def indicators : List Char :=
  ['-', '?', ':', ',', '[', ']', '\x7b', '\x7d', '#', '&', '*', '!', '|', '>', '\'', '"', '%', '@',
    '\x60']

/-- A plain scalar may begin here. -/
def startsPlain (around : Surroundings) (s : List Char) : Bool :=
  match s with
  | [] => false
  | c :: rest =>
    if c = '-' then !gapAhead rest
    else if c = ':' && around.inBrackets then
      around.version == .second && !rest.head?.any isBlank
    else if c = '?' || c = ':' then !around.inBrackets && !gapAhead rest
    else c != '\x00' && !isGap c && !indicators.contains c

/-- A character that ends a plain scalar inside brackets. -/
def isFlowMark (c : Char) : Bool := [',', ':', '?', '[', ']', '\x7b', '\x7d'].contains c

/-- A plain scalar stops in front of this text. -/
def stopsPlain (around : Surroundings) (c : Char) (rest : List Char) : Bool :=
  if c = ':' && !gapAhead rest then false
  else if c = '?' && around.version == .second then false
  else isGap c || c == '\x00' || (c = ':' && !around.inBrackets) ||
    (around.inBrackets && isFlowMark c)

/-- The part of a plain scalar up to the next blank. -/
def plainWord (around : Surroundings) : List Char → List Char
  | [] => []
  | c :: rest => if stopsPlain around c rest then [] else c :: plainWord around rest

/-- The ends of lines and the spaces at this place. Nothing is found where the mark of a document
begins a line. -/
def takeBreaks : (fuel : Nat) → Cursor → Option (List Char × Cursor)
  | 0, k => some ([], k)
  | fuel + 1, k =>
    match k.rest with
    | c :: rest =>
      if c = ' ' then takeBreaks fuel k.next
      else if isBreak c then
        if markerAhead rest then none
        else (takeBreaks fuel k.next).map fun (more, k) => (breakText c :: more, k)
      else some ([], k)
    | [] => some ([], k)

/-- The end of a line and the empty lines after it: one line feed alone becomes a space, further
ends of lines stay. -/
def fold (first : Char) (more : List Char) : List Char :=
  if breakText first != '\n' then breakText first :: more
  else if more.isEmpty then [' '] else more

/-- What stands between two words of a plain scalar. -/
structure PlainGap where
  text : List Char
  after : Cursor
  /-- The gap goes over the end of a line. -/
  breaks : Bool
  /-- The gap ends in front of the mark of a document. -/
  marked : Bool

/-- The gap after a word. -/
def plainGap (fuel : Nat) (k : Cursor) : PlainGap :=
  let spaces := k.rest.takeWhile (· == ' ')
  let after := k.skip spaces.length
  match after.rest with
  | c :: rest =>
    if isBreak c then
      if markerAhead rest then ⟨[], after.next, true, true⟩
      else
        match takeBreaks fuel after.next with
        | some (more, k) => ⟨fold c more, k, true, false⟩
        | none => ⟨[], after.next, true, true⟩
    else ⟨spaces, after, false, false⟩
  | [] => ⟨spaces, after, false, false⟩

/-- What has been read of a plain scalar. -/
structure PlainState where
  /-- The text in reverse. -/
  text : List Char := []
  /-- The gap after the text. -/
  gap : List Char := []
  place : Cursor
  /-- The scalar ends behind the end of a line. -/
  breaks : Bool := false

/-- Reads a plain scalar word by word. Outside of brackets it goes on as long as its lines are
indented. -/
def readPlain (around : Surroundings) : (fuel : Nat) → PlainState → PlainState
  | 0, s => s
  | fuel + 1, s =>
    let word := plainWord around s.place.rest
    if s.place.isAt '#' || word.isEmpty then s
    else
      let text := word.reverse ++ s.gap.reverse ++ s.text
      let gap := plainGap fuel (s.place.skip word.length)
      let next : PlainState := ⟨text, gap.text, gap.after, gap.breaks⟩
      if gap.marked || gap.text.isEmpty || gap.after.isAt '#' ||
          (!around.inBrackets && (gap.after.column : Int) ≤ around.indent) then next
      else readPlain around fuel next

/-- Reads the plain scalar that begins here, with the gap after it; tells whether that goes over
the end of a line. The fuel has to exceed the number of characters that are left. -/
def plainScalar (around : Surroundings) (fuel : Nat) (k : Cursor) : Lexeme × Bool :=
  let s := readPlain around fuel { place := k }
  (⟨s.text.reverse, s.place⟩, s.breaks)

end PagePress.Yaml
