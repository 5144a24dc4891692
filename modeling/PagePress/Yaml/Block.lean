import PagePress.Yaml.Plain

/-!
Block scalars: the indented lines below a `|`, which are kept, or below a `>`, which are folded
into paragraphs.
-/

namespace PagePress.Yaml

/-- What happens to the line feeds at the end of a block scalar. -/
inductive Chomping where
  | strip
  | clip
  | keep
  deriving DecidableEq, Repr

/-- What follows the mark of a block scalar. -/
structure BlockHeader where
  chomping : Chomping
  /-- How much deeper than its surroundings the text is, if that is given. -/
  depth : Option Nat
  after : Cursor

/-- What a character says about the end of a block scalar. -/
def chomping? (c : Char) : Option Chomping :=
  if c = '-' then some .strip else if c = '+' then some .keep else none

/-- Reads the depth of a block scalar, which is not zero. -/
def readDepth (k : Cursor) : Except Error (Option Nat × Cursor) :=
  match k.rest with
  | '0' :: _ => .error .unexpectedCharacter
  | c :: _ => .ok (if c.isDigit then (some (c.toNat - 0x30), k.next) else (none, k))
  | [] => .ok (none, k)

/-- Reads what follows the mark of a block scalar up to the end of its line: the depth and the
chomping in either order, and a comment. -/
def BlockHeader.read (k : Cursor) : Except Error BlockHeader := do
  let (chomping, depth, k) ← match k.rest.head?.bind chomping? with
    | some chomping =>
      let (depth, k) ← readDepth k.next
      pure (chomping, depth, k)
    | none =>
      let (depth, k) ← readDepth k
      match depth, k.rest.head?.bind chomping? with
      | some _, some chomping => pure (chomping, depth, k.next)
      | _, _ => pure (Chomping.clip, depth, k)
  if !spaceAhead k.rest then throw .unexpectedCharacter
  return ⟨chomping, depth, ← k.endLine⟩

/-- The empty lines in front of a block scalar whose depth is not given. -/
structure BlockStart where
  breaks : List Char := []
  /-- The column in which the first empty line ends. -/
  first : Option Nat := none
  /-- The deepest column that the spaces reach. -/
  deepest : Nat := 0
  place : Cursor

/-- Skips the empty lines in front of a block scalar and the indentation of its first line. -/
def findStart : (fuel : Nat) → BlockStart → BlockStart
  | 0, s => s
  | fuel + 1, s =>
    match s.place.rest with
    | c :: _ =>
      let k := s.place.next
      if c = ' ' then findStart fuel { s with deepest := max s.deepest k.column, place := k }
      else if isBreak c then
        findStart fuel { s with
          breaks := breakText c :: s.breaks, first := s.first.or (some s.place.column), place := k }
      else s
    | [] => s

/-- Skips the indentation of a line. -/
def skipIndent (indent : Nat) (k : Cursor) : Cursor :=
  k.skip ((k.rest.takeWhile (· == ' ')).length.min (indent - k.column))

/-- The empty lines at this place, and the indentation of the line after them. -/
def blockBreaks (indent : Nat) : (fuel : Nat) → Cursor → List Char × Cursor
  | 0, k => ([], k)
  | fuel + 1, k =>
    let k := skipIndent indent k
    match k.rest with
    | c :: _ =>
      if isBreak c then
        let (more, k) := blockBreaks indent fuel k.next
        (breakText c :: more, k)
      else ([], k)
    | [] => ([], k)

/-- What has been read of a block scalar. -/
structure BlockState where
  /-- The text in reverse. -/
  text : List Char := []
  /-- The end of the last line. -/
  lineEnd : List Char := []
  /-- The empty lines after it. -/
  breaks : List Char
  place : Cursor

/-- What is left of the end of a line in front of a further line. -/
def blockJoint (folded indented : Bool) (lineEnd breaks next : List Char) : List Char :=
  if folded && lineEnd == ['\n'] && !indented && !next.head?.any isBlank then
    if breaks.isEmpty then [' '] else []
  else lineEnd

/-- Reads the lines of a block scalar as long as they are indented. At the top of a document the
mark of a document ends the scalar. -/
def readBlock (folded : Bool) (indent : Nat) (atTop : Bool) :
    (fuel : Nat) → BlockState → BlockState
  | 0, s => s
  | fuel + 1, s =>
    if s.place.column != indent || s.place.rest.isEmpty then s
    else
      let line := s.place.rest.takeWhile (!isBreak ·)
      let text := line.reverse ++ s.breaks.reverse ++ s.text
      let k := s.place.skip line.length
      let lineEnd := (k.rest.head?.map breakText).toList
      let (breaks, k) := blockBreaks indent fuel k.skipBreak
      if (atTop && (k.atMarker '-' || k.atMarker '.')) || k.column != indent || k.rest.isEmpty then
        ⟨text, lineEnd, breaks, k⟩
      else
        let indented := line.head?.any isBlank
        let joint := blockJoint folded indented lineEnd breaks k.rest
        readBlock folded indent atTop fuel ⟨joint.reverse ++ text, [], breaks, k⟩

/-- The text of a block scalar with the line feeds at its end. -/
def BlockState.finish (chomping : Chomping) (s : BlockState) : List Char :=
  s.text.reverse ++
    match chomping with
    | .strip => []
    | .clip => s.lineEnd
    | .keep => s.lineEnd ++ s.breaks

/-- Reads the block scalar that begins here inside a block with the given indentation. The fuel has
to exceed the number of characters that are left. -/
def blockScalar (folded : Bool) (outer : Int) (fuel : Nat) (k : Cursor) :
    Except Error Lexeme := do
  let header ← BlockHeader.read k.next
  let least := (outer + 1).toNat
  let (indent, s) ← match header.depth with
    | some depth =>
      let indent := max least 1 + depth - 1
      let (breaks, place) := blockBreaks indent fuel header.after
      pure (indent, ({ breaks, place } : BlockState))
    | none =>
      let start := findStart fuel { place := header.after }
      if start.first.any fun first => 0 < first && first < start.deepest then
        throw .badIndentation
      pure (max least start.deepest, { breaks := start.breaks.reverse, place := start.place })
  let s := readBlock folded indent (least == 0) fuel s
  return ⟨s.finish header.chomping, s.place⟩

end PagePress.Yaml
