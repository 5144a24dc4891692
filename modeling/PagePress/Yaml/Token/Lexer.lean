import PagePress.Yaml.Block
import PagePress.Yaml.Quoted
import PagePress.Yaml.Token

/-!
Cutting of a document into tokens.

A key of a mapping is recognised only by the colon behind it. So where a key may begin, a slot is
left among the tokens, and the place is kept in mind; the colon fills the slot with the token of a
key, and in a block with that of the mapping that the key opens. A key has to stand on one line
and may not be too long; a slot whose key did not come stays empty.
-/

namespace PagePress.Yaml

/-- A place where a key may have begun. -/
structure PossibleKey where
  /-- The number of the slot of the key. -/
  slot : Nat
  /-- Nothing but a key may stand at this place. -/
  required : Bool
  place : Cursor

/-- What has been read of a document. -/
structure Lexer where
  place : Cursor
  version : Version := .second
  /-- The document has a directive that names the version. -/
  versionGiven : Bool := false
  /-- The brackets that are open, the innermost first. -/
  brackets : List Bracket := []
  /-- The indentation of the innermost block. -/
  indent : Int := -1
  /-- The indentations of the blocks around it. -/
  outer : List Int := []
  /-- A key may begin here. -/
  keysAllowed : Bool := true
  /-- The places where a key may have begun, with the number of the brackets that were open, the
  innermost first. -/
  keys : List (Nat × PossibleKey) := []
  /-- The last tokens wait for a key that may have begun in front of them. -/
  waiting : Bool := false
  /-- The tokens in groups, the latest first: a token alone, or what a slot holds. -/
  tokens : List (List Token) := []
  /-- The number of the groups. -/
  count : Nat := 0

namespace Lexer

def inBrackets (s : Lexer) : Bool := !s.brackets.isEmpty

/-- The number of open brackets. -/
def level (s : Lexer) : Nat := s.brackets.length

/-- Adds a group of tokens. -/
def add (group : List Token) (s : Lexer) : Lexer :=
  { s with tokens := group :: s.tokens, count := s.count + 1 }

/-- Adds a token. -/
def emit (t : Token) (s : Lexer) : Lexer := s.add [t]

/-- Fills a slot. -/
def fill (slot : Nat) (group : List Token) (s : Lexer) : Lexer :=
  { s with tokens := s.tokens.set (s.count - 1 - slot) group }

/-- Goes to another place. -/
def goTo (k : Cursor) (s : Lexer) : Lexer := { s with place := k }

/-- Goes on by `n` characters. -/
def advance (n : Nat) (s : Lexer) : Lexer := { s with place := s.place.skip n }

def allowKeys (allowed : Bool) (s : Lexer) : Lexer := { s with keysAllowed := allowed }

/-! ### Keys -/

/-- The length that a key must not exceed. -/
def maxKeyLength : Nat := 1024

/-- A key can no longer have begun at a place: it is on another line or too far away. -/
def isStale (s : Lexer) (k : PossibleKey) : Bool :=
  k.place.line != s.place.line || maxKeyLength < s.place.index - k.place.index

/-- Forgets the places where a key can no longer have begun. -/
def dropStale (s : Lexer) : Except Error Lexer :=
  if s.keys.any fun k => s.isStale k.2 && k.2.required then .error .misplacedKey
  else .ok { s with keys := s.keys.filter fun k => !s.isStale k.2 }

/-- Forgets the place of a key between the innermost brackets. -/
def dropKey (s : Lexer) : Except Error Lexer :=
  match s.keys.lookup s.level with
  | none => .ok s
  | some k =>
    if k.required then .error .misplacedKey
    else .ok { s with keys := s.keys.filter fun k => k.1 != s.level }

/-- Keeps in mind that a key may begin here. -/
def saveKey (s : Lexer) : Except Error Lexer := do
  if !s.keysAllowed then return s
  let s ← s.dropKey
  let required := !s.inBrackets && s.indent == s.place.column
  let key : PossibleKey := ⟨s.count, required, s.place⟩
  return { s with keys := (s.level, key) :: s.keys }.add []

/-- The number of tokens that are sure not to be a key. -/
def settled (s : Lexer) : Nat := s.keys.foldl (fun n k => min n k.2.slot) s.count

/-! ### Indentation -/

/-- Opens a block in a column that is deeper than the block around it. -/
def openBlock (column : Nat) (s : Lexer) : Option Lexer :=
  if s.indent < column then some { s with indent := column, outer := s.indent :: s.outer }
  else none

/-- Closes the blocks that are indented more than a column. `outer` holds the indentations around
the innermost block. -/
def closeBlocks (column : Int) : (outer : List Int) → Lexer → Lexer
  | [], s => s
  | indent :: outer, s =>
    if column < s.indent then
      closeBlocks column outer { s.emit .blockEnd with indent, outer }
    else s

/-- Closes blocks, unless brackets are open. -/
def unwind (column : Int) (s : Lexer) : Lexer :=
  if s.inBrackets then s else closeBlocks column s.outer s

/-! ### White space -/

/-- Skips white space, comments and ends of lines up to the next token. At the start of a line in a
block a key is allowed. -/
def skipGap : (fuel : Nat) → Lexer → Lexer
  | 0, s => s
  | fuel + 1, s =>
    let isSpace := fun c => c == ' ' || (s.inBrackets && c == '\t')
    let k := s.place.skipWhile isSpace
    let k := if k.isAt '#' then k.skipWhile (!isBreak ·) else k
    if k.rest.head?.any isBreak then
      skipGap fuel { s with place := k.next, keysAllowed := s.keysAllowed || !s.inBrackets }
    else { s with place := k }

/-- Goes to the next token. -/
def toToken (fuel : Nat) (s : Lexer) : Lexer :=
  let s := if s.place.index == 0 && s.place.isAt orderMark then s.advance 1 else s
  skipGap fuel s

/-! ### Tokens -/

/-- Closes everything in front of a directive, the mark of a document or the end. -/
def settle (s : Lexer) : Except Error Lexer := do
  return (← (s.unwind (-1)).dropKey).allowKeys false

/-- Reads a directive. The version that one names takes effect at once. -/
def readDirective (s : Lexer) : Except Error Lexer := do
  let s ← s.settle
  let (d, k) ← directive s.version s.place
  let s := (s.goTo k).emit (.directive d)
  match d with
  | .version major minor =>
    if s.versionGiven || major != 1 then throw .badDirective
    match minor with
    | 1 => return { s with version := .first, versionGiven := true }
    | 2 => return { s with version := .second, versionGiven := true }
    | _ => throw .unknownVersion
  | _ => return s

/-- Reads the mark of the end of a document. -/
def readDocumentEnd (s : Lexer) : Except Error Lexer := do
  let s := (← s.settle).advance 3
  let alone := match (s.place.skipWhile (· == ' ')).rest with
    | [] => true
    | c :: _ => c == '#' || isBreak c
  return s.emit (.documentEnd alone)

/-- Reads an opening bracket, which may begin a key. -/
def readOpening (b : Bracket) (s : Lexer) : Except Error Lexer := do
  let s ← s.saveKey
  return ({ s with brackets := b :: s.brackets, keysAllowed := true }.advance 1).emit (.opening b)

/-- Reads a closing bracket. -/
def readClosing (b : Bracket) (s : Lexer) : Except Error Lexer := do
  let s ← s.dropKey
  return ({ s with brackets := s.brackets.tail, keysAllowed := false }.advance 1).emit (.closing b)

def readComma (s : Lexer) : Except Error Lexer := do
  return ((← (s.allowKeys true).dropKey).advance 1).emit .comma

/-- Opens the block of a mark that stands in front of what it marks. -/
def openMarked (start : Token) (s : Lexer) : Except Error Lexer :=
  if s.inBrackets then .ok s
  else if !s.keysAllowed then .error .misplacedKey
  else
    match s.openBlock s.place.column with
    | some s => .ok (s.emit start)
    | none => .ok s

/-- Reads the mark of an item of a list. -/
def readItem (s : Lexer) : Except Error Lexer := do
  return ((← ((← s.openMarked .blockList).allowKeys true).dropKey).advance 1).emit .item

/-- Reads the mark of a key. -/
def readKey (s : Lexer) : Except Error Lexer := do
  let s ← s.openMarked .blockMap
  return ((← (s.allowKeys (!s.inBrackets)).dropKey).advance 1).emit .key

/-- Fills the slot of a key, which opens a mapping in a column deeper than the block around it. -/
def fillKey (k : PossibleKey) (s : Lexer) : Lexer :=
  let s := { s with keys := s.keys.filter (fun k => k.1 != s.level), keysAllowed := false }
  if s.inBrackets then s.fill k.slot [.key]
  else
    match s.openBlock k.place.column with
    | some s => s.fill k.slot [.blockMap, .key]
    | none => s.fill k.slot [.key]

/-- Reads the colon behind a key. -/
def readValue (s : Lexer) : Except Error Lexer := do
  match s.keys.lookup s.level with
  | some k => return ((s.fillKey k).advance 1).emit .value
  | none =>
    let s ← s.openMarked .blockMap
    return ((← (s.allowKeys (!s.inBrackets)).dropKey).advance 1).emit .value

/-- Reads something that may be a key or begin one. -/
def readAtom (read : Cursor → Except Error (Token × Cursor)) (s : Lexer) : Except Error Lexer := do
  let s := (← s.saveKey).allowKeys false
  let (t, k) ← read s.place
  return (s.goTo k).emit t

def readQuotedScalar (quotes : Quotes) (fuel : Nat) (s : Lexer) : Except Error Lexer :=
  s.readAtom fun k => (quotedScalar quotes fuel k).map fun l => (.scalar .quoted l.text, l.after)

/-- Reads a block scalar, which is no key. -/
def readBlockScalar (folded : Bool) (fuel : Nat) (s : Lexer) : Except Error Lexer := do
  let s ← (s.allowKeys true).dropKey
  let l ← blockScalar folded s.indent fuel s.place
  return (s.goTo l.after).emit (.scalar .block l.text)

/-- What is around the place of a lexer. -/
def surroundings (s : Lexer) : Surroundings := ⟨s.version, s.inBrackets, s.indent⟩

/-- Reads a plain scalar. A key is allowed behind it if it ends on an earlier line. -/
def readPlainScalar (fuel : Nat) (s : Lexer) : Except Error Lexer := do
  let s ← s.saveKey
  let (l, breaks) := plainScalar s.surroundings fuel s.place
  return ((s.goTo l.after).allowKeys breaks).emit (.scalar .plain l.text)

/-- The colon here stands behind a key. Between square brackets a gap has to follow, and between
curly ones right behind another such colon, as long as the tokens up to it are waiting. -/
def atValue (s : Lexer) : Bool :=
  let gap := gapAhead s.place.rest.tail
  match s.version, s.brackets with
  | _, [] => gap
  | .first, _ => true
  | .second, .square :: _ => gap
  | .second, .curly :: _ => gap || !s.waiting || s.tokens.head? != some [.value]

/-- Reads the next token, which begins here. -/
def readToken (fuel : Nat) (s : Lexer) (c : Char) (rest : List Char) : Except Error Lexer :=
  let k := s.place
  if c = '%' && k.column == 0 then s.readDirective
  else if k.atMarker '-' then do return ((← s.settle).advance 3).emit .documentStart
  else if k.atMarker '.' then s.readDocumentEnd
  else if c = '[' then s.readOpening .square
  else if c = '\x7b' then s.readOpening .curly
  else if c = ']' then s.readClosing .square
  else if c = '\x7d' then s.readClosing .curly
  else if c = ',' then s.readComma
  else if c = '-' && gapAhead rest then s.readItem
  else if c = '?' && (s.inBrackets || gapAhead rest) then s.readKey
  else if c = ':' && s.atValue then s.readValue
  else if c = '*' then
    s.readAtom fun k => (anchorName k.next).map fun (name, k) => (.alias name, k)
  else if c = '&' then
    s.readAtom fun k => (anchorName k.next).map fun (name, k) => (.anchor name, k)
  else if c = '!' then
    s.readAtom fun k => (writtenTag s.version k).map fun (t, k) => (.tag t, k)
  else if (c = '|' || c = '>') && !s.inBrackets then s.readBlockScalar (c = '>') fuel
  else if c = '\'' then s.readQuotedScalar .single fuel
  else if c = '"' then s.readQuotedScalar .double fuel
  else if startsPlain s.surroundings k.rest then s.readPlainScalar fuel
  else .error .unexpectedCharacter

/-- Goes to the next token and reads it; at the end everything is closed. The fuel has to exceed the
number of characters that are left. -/
def step (fuel : Nat) (s : Lexer) : Except Error (Lexer × Bool) := do
  let s ← (s.toToken fuel).dropStale
  let s := s.unwind s.place.column
  match s.place.rest with
  | [] => return (← s.settle, true)
  | c :: rest => return (← s.readToken fuel c rest, false)

/-- The first groups of tokens. -/
def tokensUpTo (n : Nat) (s : Lexer) : List Token := (s.tokens.reverse.take n).flatten

/-- Reads all tokens. A token that may still turn out to be part of a key is not given out before
what comes after it has been read. -/
def run : (fuel : Nat) → Lexer → Tokens
  | 0, s => ⟨s.tokensUpTo s.settled, s.version, some .unexpectedCharacter⟩
  | fuel + 1, s =>
    match s.dropStale with
    | .error e => ⟨s.tokensUpTo s.settled, s.version, some e⟩
    | .ok s =>
      match step fuel { s with waiting := !s.keys.isEmpty } with
      | .error e => ⟨s.tokensUpTo s.settled, s.version, some e⟩
      | .ok (next, true) => ⟨next.tokensUpTo next.count, next.version, none⟩
      | .ok (next, false) => run fuel next

end Lexer

/-- The tokens of a text. Every token takes at least one character, so the fuel exceeds what is left
of the text at every token. -/
def Tokens.read (s : List Char) : Tokens := Lexer.run (s.length + 2) { place := { rest := s } }

end PagePress.Yaml
