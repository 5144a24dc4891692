import PagePress.Yaml.Tag
import PagePress.Yaml.Token

/-!
Nodes of a YAML document: scalars, lists and mappings with their tags, and aliases of nodes that
have an anchor. The anchors are numbered in the order in which they stand in the document.
-/

namespace PagePress.Yaml

/-- A node of a document. -/
inductive Node where
  | scalar (anchor : Option Nat) (tag : Tag) (text : List Char)
  | list (anchor : Option Nat) (tag : Tag) (items : List Node)
  | map (anchor : Option Nat) (tag : Tag) (entries : List (Node × Node))
  | alias (anchor : Nat)
  deriving Inhabited

/-- The number of the anchor that an alias names. -/
def Node.aliased? : Node → Option Nat
  | .alias anchor => some anchor
  | _ => none

/-- The node of a document and all nodes that have an anchor. -/
structure Document where
  version : Version
  root : Node
  anchored : Array Node

/-! ### Reading -/

/-- What is known while nodes are read from tokens. -/
structure Reader where
  tokens : List Token
  /-- Why there are no more tokens. -/
  failure : Option Error
  version : Version
  /-- What the handles of tags stand for. -/
  handles : List (String × String) := [("!", "!"), ("!!", Tag.core)]
  /-- The numbers of the anchors, the latest first. -/
  anchors : List (String × Nat) := []
  /-- The nodes with an anchor; one that is not read to its end is empty. -/
  anchored : Array Node := #[]

abbrev Reading := StateT Reader (Except Error)

/-- What a node without any text stands for. -/
def Node.empty : Node := .scalar none .null []

/-- The next token; nothing at the end of the document. -/
def peek : Reading (Option Token) := do
  let s ← get
  match s.tokens, s.failure with
  | t :: _, _ => return some t
  | [], none => return none
  | [], some e => throw e

/-- Takes the next token. -/
def drop : Reading Unit := modify fun s => { s with tokens := s.tokens.tail }

/-- Takes the next token if it is the given one. -/
def dropIf (t : Token) : Reading Bool := do
  if (← peek) == some t then
    drop
    return true
  else return false

/-- The properties of a node. -/
structure Properties where
  anchor : Option Nat := none
  /-- The full name of a tag. -/
  tag : Option String := none

def Properties.isEmpty (p : Properties) : Bool := p.anchor.isNone && p.tag.isNone

/-- The tag of a node that has one of its own, and not just the mark for none. -/
def Properties.tag? (p : Properties) : Option Tag := (p.tag.filter (· != "!")).map Tag.ofName

/-- The tag of a scalar. The mark for no tag makes a quoted scalar count as a plain one. -/
def Properties.scalarTag (version : Version) (form : ScalarForm) (text : List Char)
    (p : Properties) : Tag :=
  p.tag?.getD (if form = .plain || p.tag.isSome then .ofPlain version text else .text)

/-- The tag of a scalar that is not there. -/
def Properties.emptyTag (version : Version) (p : Properties) : Tag :=
  p.tag?.getD (.ofPlain version [])

/-- The full name of a tag as it is written. -/
def fullTag (t : WrittenTag) : Reading String := do
  match t.handle with
  | none => return t.word
  | some handle =>
    let some start := (← get).handles.lookup handle | throw .unknownTag
    return start ++ t.word

/-- Reads an anchor and numbers it. -/
def anchor? : Reading (Option Nat) := do
  match ← peek with
  | some (.anchor name) =>
    drop
    let s ← get
    let number := s.anchored.size
    set { s with
      anchors := (name, number) :: s.anchors, anchored := s.anchored.push .empty }
    return some number
  | _ => return none

/-- Reads a tag. -/
def tag? : Reading (Option WrittenTag) := do
  match ← peek with
  | some (.tag t) =>
    drop
    return some t
  | _ => return none

/-- Reads the properties of a node, in either order. -/
def properties : Reading Properties := do
  match ← anchor? with
  | some number => return ⟨some number, ← (← tag?).mapM fullTag⟩
  | none =>
    match ← tag? with
    | some t =>
      let number ← anchor?
      return ⟨number, some (← fullTag t)⟩
    | none => return {}

/-- Stores a node under the number of its anchor. -/
def store (p : Properties) (n : Node) : Reading Node := do
  match p.anchor with
  | none => return n
  | some number =>
    modify fun s => { s with anchored := s.anchored.setIfInBounds number n }
    return n

/-- How deep nodes may be nested. -/
def maxDepth : Nat := 480

/-- Nothing stands between a mark and the next of the given tokens. -/
def isMissing (stops : List Token) : Reading Bool := do
  match ← peek with
  | some t => return stops.contains t
  | none => return false

mutual

/-- Reads a node. In a block it may be a block collection, and beside the keys of a mapping a list
whose items are not indented. -/
def node : (fuel : Nat) → (depth : Nat) → (inBlock beside : Bool) → Reading Node
  | 0, _, _, _ => throw .tooDeep
  | fuel + 1, depth, inBlock, beside => do
    match ← peek with
    | some (.alias name) =>
      drop
      let some number := (← get).anchors.lookup name | throw .unknownAlias
      return .alias number
    | _ =>
      if maxDepth < depth then throw .tooDeep
      let p ← properties
      let version := (← get).version
      match ← peek with
      | some .item =>
        if beside then
          let items ← blockItems fuel (depth + 1) true
          store p (.list p.anchor (p.tag?.getD .list) items)
        else missing p
      | some (.scalar form text) =>
        drop
        store p (.scalar p.anchor (p.scalarTag version form text) text)
      | some (.opening .square) =>
        drop
        let items ← flowItems fuel (depth + 1) true
        store p (.list p.anchor (p.tag?.getD .list) items)
      | some (.opening .curly) =>
        drop
        let entries ← flowEntries fuel (depth + 1) true
        store p (.map p.anchor (p.tag?.getD .map) entries)
      | some .blockList =>
        if inBlock then
          drop
          let items ← blockItems fuel (depth + 1) false
          store p (.list p.anchor (p.tag?.getD .list) items)
        else missing p
      | some .blockMap =>
        if inBlock then
          drop
          let entries ← blockEntries fuel (depth + 1)
          store p (.map p.anchor (p.tag?.getD .map) entries)
        else missing p
      | _ => missing p

/-- The node with the given properties and nothing else. -/
def missing (p : Properties) : Reading Node := do
  if p.isEmpty then throw .unexpectedToken
  else store p (.scalar p.anchor (p.emptyTag (← get).version) [])

/-- Reads the items of a block list. A list `beside` keys ends where no item follows. -/
def blockItems : (fuel : Nat) → (depth : Nat) → (beside : Bool) → Reading (List Node)
  | 0, _, _ => throw .tooDeep
  | fuel + 1, depth, beside => do
    if ← dropIf .item then
      let stops := if beside then [.item, .key, .value, .blockEnd] else [.item, .blockEnd]
      let first ← if ← isMissing stops then pure Node.empty else node fuel depth true false
      return first :: (← blockItems fuel depth beside)
    else if beside then return []
    else if ← dropIf .blockEnd then return []
    else throw .unexpectedToken

/-- Reads the value behind a key in a block. -/
def blockValue : (fuel : Nat) → (depth : Nat) → Reading Node
  | 0, _ => throw .tooDeep
  | fuel + 1, depth => do
    if ← dropIf .value then
      if ← isMissing [.key, .value, .blockEnd] then return .empty
      else node fuel depth true true
    else return .empty

/-- Reads the entries of a block mapping. In the second version of the language a key may be
missing. -/
def blockEntries : (fuel : Nat) → (depth : Nat) → Reading (List (Node × Node))
  | 0, _ => throw .tooDeep
  | fuel + 1, depth => do
    if ← dropIf .key then
      let key ← if ← isMissing [.key, .value, .blockEnd] then pure Node.empty
        else node fuel depth true true
      let value ← blockValue fuel depth
      return (key, value) :: (← blockEntries fuel depth)
    else if (← get).version == .second && (← peek) == some .value then
      let value ← blockValue fuel depth
      return (.empty, value) :: (← blockEntries fuel depth)
    else if ← dropIf .blockEnd then return []
    else throw .unexpectedToken

/-- Reads what stands behind a mark between brackets; where one of the given tokens follows,
nothing does. -/
def flowNode : (fuel : Nat) → (depth : Nat) → (stops : List Token) → Reading Node
  | 0, _, _ => throw .tooDeep
  | fuel + 1, depth, stops => do
    if ← isMissing stops then return .empty else node fuel depth false false

/-- Reads a value between brackets, if there is one. -/
def flowValue : (fuel : Nat) → (depth : Nat) → (b : Bracket) → Reading Node
  | 0, _, _ => throw .tooDeep
  | fuel + 1, depth, b => do
    if ← dropIf .value then flowNode fuel depth [.comma, .closing b] else return .empty

/-- Reads the items of a list between brackets. An item that is written as an entry is a mapping of
its own. -/
def flowItems : (fuel : Nat) → (depth : Nat) → (first : Bool) → Reading (List Node)
  | 0, _, _ => throw .tooDeep
  | fuel + 1, depth, first => do
    if ← dropIf (.closing .square) then return []
    if !first then
      if !(← dropIf .comma) then throw .unexpectedToken
      if ← dropIf (.closing .square) then return []
    let item ←
      if ← dropIf .key then do
        let key ← flowNode fuel (depth + 1) [.value, .comma, .closing .square]
        let value ← flowValue fuel (depth + 1) .square
        pure (Node.map none .map [(key, value)])
      else node fuel depth false false
    return item :: (← flowItems fuel depth false)

/-- Reads the entries of a mapping between brackets. An entry without a colon has no value. -/
def flowEntries : (fuel : Nat) → (depth : Nat) → (first : Bool) → Reading (List (Node × Node))
  | 0, _, _ => throw .tooDeep
  | fuel + 1, depth, first => do
    if ← dropIf (.closing .curly) then return []
    if !first then
      if !(← dropIf .comma) then throw .unexpectedToken
      if ← dropIf (.closing .curly) then return []
    let entry ←
      if ← dropIf .key then do
        let key ← flowNode fuel depth [.value, .comma, .closing .curly]
        pure (key, ← flowValue fuel depth .curly)
      else if (← get).version == .second && (← peek) == some .value then do
        pure (Node.empty, ← flowValue fuel depth .curly)
      else do
        pure (← node fuel depth false false, Node.empty)
    return entry :: (← flowEntries fuel depth false)

end

/-! ### Documents -/

/-- Takes the directives in front of a document. No handle may be given a meaning twice. -/
def directives : (fuel : Nat) → (given : List (String × String)) → Reading Unit
  | 0, _ => throw .badDirective
  | fuel + 1, given => do
    match ← peek with
    | some (.directive d) =>
      drop
      match d with
      | .handle name start =>
        if (given.lookup name).isSome then throw .badDirective
        directives fuel ((name, start) :: given)
      | _ => directives fuel given
    | some .documentStart =>
      drop
      modify fun s => { s with handles := given ++ s.handles }
    | _ => throw .badDirective

/-- Checks that nothing follows a document but the mark of its end. In the first version of the
language the mark may stand there several times. -/
def documentEnd : (fuel : Nat) → Reading Unit
  | 0 => throw .severalDocuments
  | fuel + 1 => do
    match ← peek with
    | none => return ()
    | some (.documentEnd alone) =>
      drop
      match ← peek with
      | none => return ()
      | some _ =>
        if alone && (← get).version == .first then documentEnd fuel
        else throw .severalDocuments
    | some _ => throw .severalDocuments

/-- Reads the only document of a text; nothing if the text has none. -/
def document (fuel : Nat) : Reading (Option Node) := do
  match ← peek with
  | none => return none
  | some (.directive _) | some .documentStart =>
    directives fuel []
    let missing ← match ← peek with
      | none | some (.directive _) | some .documentStart | some (.documentEnd _) => pure true
      | some _ => pure false
    let root ← if missing then pure Node.empty else node fuel 0 true false
    documentEnd fuel
    return some root
  | some _ =>
    let root ← node fuel 0 true false
    documentEnd fuel
    return some root

/-- Reads the document of some tokens. No step is taken more than a few times for one token, so
their number bounds that of the steps. -/
def Document.ofTokens (t : Tokens) : Except Error Document := do
  let (root, s) ← (document (4 * t.list.length + 8)).run
    { tokens := t.list, failure := t.failure, version := t.version }
  return ⟨t.version, root.getD .empty, s.anchored⟩

end PagePress.Yaml
