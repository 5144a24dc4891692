import PagePress.Yaml.Mapping
import PagePress.Yaml.Node
import PagePress.Yaml.Scalar

/-!
What a document means: the value of its root node.

The nodes are valued level by level, so that of several errors the one nearest to the root counts,
and of these the first. A key is valued as a whole before its entry.
-/

namespace PagePress.Yaml

/-! ### Errors by depth -/

/-- An error, and how far below a node it is found. -/
structure Failure where
  depth : Nat
  cause : Error

/-- What a node means. -/
abbrev Meaning (α : Type) := Except Failure α

namespace Meaning

/-- Fails at the node itself. -/
def fail {α : Type} (depth : Nat) (e : Error) : Meaning α := .error ⟨depth, e⟩

def ofExcept {α : Type} (depth : Nat) : Except Error α → Meaning α
  | .ok a => .ok a
  | .error e => fail depth e

/-- The meaning of a part, as seen from further up. -/
def below {α : Type} (n : Nat) (m : Meaning α) : Meaning α :=
  m.mapError fun e => { e with depth := e.depth + n }

/-- The meaning of a part that is valued as a whole. -/
def flat {α : Type} (m : Meaning α) : Meaning α := m.mapError fun e => { e with depth := 0 }

/-- The error that counts of one found before and another one. -/
def worse (before : Option Failure) (e : Failure) : Failure :=
  match before with
  | some f => if e.depth < f.depth then e else f
  | none => e

/-- Puts some meanings together. -/
def all {α : Type} (before : Option Failure) (done : List α) : List (Meaning α) → Meaning (List α)
  | [] => match before with
    | some f => .error f
    | none => .ok done.reverse
  | .ok a :: rest => all before (a :: done) rest
  | .error e :: rest => all (some (worse before e)) done rest

end Meaning

/-! ### Entries -/

/-- Puts entries together one by one. A key that cannot be one, or one that is there already where
that is checked, stops the work; an error deep in a value does not. -/
def joinEntries (checked : Bool) (before : Option Failure) (done : List (Value × Value)) :
    List (Meaning Value × Meaning Value) → Meaning (List (Value × Value))
  | [] => match before with
    | some f => .error f
    | none => .ok done.reverse
  | (key, value) :: rest => do
    let key ← Meaning.ofExcept 0 (asKey (← key.flat))
    let before := match value with
      | .error e => some (Meaning.worse before e)
      | .ok _ => before
    match value with
    | .error ⟨0, e⟩ => Meaning.fail 0 e
    | _ =>
      if !isFixed key then Meaning.fail 0 .changingKey
      else if checked && hasKey key done then Meaning.fail 0 .duplicateKey
      else joinEntries checked before ((key, value.toOption.getD .null) :: done) rest

/-- Puts the entries of an ordered mapping together. -/
def joinOrdered (before : Option Failure) (done : List (Value × Value)) :
    List (Meaning Value × Meaning Value) → Meaning (List (Value × Value))
  | [] => match before with
    | some f => .error f
    | none => .ok done.reverse
  | (key, value) :: rest => do
    let key ← key.flat
    if !isFixed key then Meaning.fail 0 .changingKey
    else if hasKey key done then Meaning.fail 0 .repeatedEntry
    else
      match value with
      | .error ⟨0, e⟩ => Meaning.fail 0 e
      | .error e => joinOrdered (some (Meaning.worse before e)) ((key, .null) :: done) rest
      | .ok v => joinOrdered before ((key, v) :: done) rest

/-! ### Merging -/

namespace Document

/-- The node that an alias stands for. -/
def target (d : Document) (number : Nat) : Node := d.anchored.getD number .empty

/-- The tag of a node. -/
def tagOf (d : Document) : Node → Tag
  | .scalar _ tag _ | .list _ tag _ | .map _ tag _ => tag
  | .alias number =>
    match d.target number with
    | .scalar _ tag _ | .list _ tag _ | .map _ tag _ => tag
    | .alias _ => .unknown

/-- The entries of a mapping: those that it merges from others, and its own. -/
structure Entries where
  merged : List (Node × Node) := []
  own : List (Node × Node) := []

def Entries.all (e : Entries) : List (Node × Node) := e.merged ++ e.own

/-- A mapping that is merged into another one: its anchor and its entries. -/
abbrev Source := Option Nat × List (Node × Node)

/-- The mapping that a node is. -/
def source (d : Document) (n : Node) : Except Error Source :=
  match n with
  | .map _ _ entries => .ok (none, entries)
  | .alias number =>
    match d.target number with
    | .map _ _ entries => .ok (some number, entries)
    | _ => .error .badMerge
  | _ => .error .badMerge

/-- The mappings that a merge key names, those that count less first. -/
def sources (d : Document) (n : Node) : Except Error (List Source) :=
  match n, n.aliased?.map d.target with
  | .list _ _ items, _ | _, some (.list _ _ items) => items.reverse.mapM d.source
  | _, _ => (d.source n).map ([·])

/-- Takes the entries of a mapping apart. A mapping can be merged from one or several others; of
these the first counts most. `visiting` holds the anchors of the mappings that are being read or
merged already, which add nothing to themselves. -/
def takeApart (d : Document) :
    (fuel : Nat) → (visiting : List Nat) → List (Node × Node) → Except Error Entries
  | 0, _, _ => .error .tooDeep
  | fuel + 1, visiting, entries => do
    let parts ← entries.foldlM (fun (e : Entries) (key, value) => do
      if d.tagOf key != .merge then return { e with own := (key, value) :: e.own }
      else if !e.merged.isEmpty then throw Error.duplicateKey
      else
        let parts ← (← d.sources value).mapM fun (anchor, entries) =>
          if anchor.any visiting.contains then pure []
          else (takeApart d fuel (anchor.toList ++ visiting) entries).map Entries.all
        return { e with merged := parts.flatten }) {}
    return { parts with own := parts.own.reverse }

/-- The text that a mapping stands for where a scalar is wanted: that of its value key. -/
def valueText? (d : Document) : (fuel : Nat) → Node → Option (List Char)
  | 0, _ => none
  | fuel + 1, n =>
    match n with
    | .scalar _ _ text => some text
    | .list .. => none
    | .map _ _ entries =>
      (entries.find? fun e => d.tagOf e.1 == .value).bind fun e => valueText? d fuel e.2
    | .alias number => valueText? d fuel (d.target number)

/-! ### Nodes -/

/-- What is known about the anchors so far. -/
structure Known where
  /-- The meanings of the nodes with an anchor. -/
  meanings : Array (Option (Meaning Value))
  /-- The anchors of the collections that stand inside themselves. -/
  loops : List Nat := []
  /-- The next mark of a collection without an anchor. -/
  mark : Nat

/-- Says what a collection is in everything that is known about the anchors inside it. -/
def Known.tie (number : Nat) (whole : Value) (s : Known) : Known :=
  { s with meanings := s.meanings.map fun m => m.map fun m => m.map (Yaml.tie number whole) }

/-- The value of a node, which gets a mark if it is a collection on a loop. -/
def marked (anchor : Option Nat) (v : Value) : StateM Known Value := do
  let s ← get
  if s.loops.isEmpty || !loops v then return v
  match anchor with
  | none =>
    set { s with mark := s.mark + 1 }
    return .again s.mark v
  | some number =>
    if s.loops.contains number then
      let whole := wholeOf number v
      set (s.tie number whole)
      return .again number (tie number whole v)
    else return .again number v

/-- Remembers the meaning of a node with an anchor. -/
def remember (anchor : Option Nat) (m : Meaning Value) : StateM Known (Meaning Value) := do
  let m ← match m with
    | .ok v => do pure (.ok (← marked anchor v))
    | .error e => pure (.error e)
  match anchor with
  | none => return m
  | some number =>
    modify fun s => { s with meanings := s.meanings.setIfInBounds number (some m) }
    return m

/-- The meaning of a key. The value key is a text as a key. -/
def keyMeaning (d : Document) (meaning : Node → StateM Known (Meaning Value)) (n : Node) :
    StateM Known (Meaning Value) := do
  match n with
  | .scalar anchor .value text => remember anchor (.ok (.text (.ofList text)))
  | .alias number =>
    match d.target number with
    | .scalar _ .value text => return .ok (.text (.ofList text))
    | _ => meaning n
  | _ => meaning n

/-- The meanings of some entries. -/
def entryMeanings (d : Document) (meaning : Node → StateM Known (Meaning Value))
    (entries : List (Node × Node)) : StateM Known (List (Meaning Value × Meaning Value)) :=
  entries.mapM fun (key, value) => do
    let k ← keyMeaning d meaning key
    return (k, ← meaning value)

/-- The entries of a mapping with their meanings. Keys are checked unless entries are merged; then
the last entry of a key counts, at the place of the first. -/
def mapMeaning (d : Document) (meaning : Node → StateM Known (Meaning Value)) (fuel : Nat)
    (around : List Nat) (entries : List (Node × Node)) :
    StateM Known (Meaning (List (Value × Value))) := do
  match takeApart d fuel around entries with
  | .error e => return Meaning.fail 0 e
  | .ok parts =>
    let meanings ← entryMeanings d meaning parts.all
    if parts.merged.isEmpty then return joinEntries true none [] meanings
    else
      return (joinEntries false none [] meanings).map fun es =>
        es.foldl (fun done e => putEntry e.1 e.2 done) []

/-- The single entry of each of some mappings. -/
def singleEntries (d : Document) : List Node → Except Error (List (Node × Node))
  | [] => .ok []
  | n :: rest => do
    let n := match n with
      | .alias number => d.target number
      | _ => n
    match n with
    | .map _ _ [entry] => return entry :: (← singleEntries d rest)
    | _ => throw .unfitTag

/-- The meaning of a collection where a scalar is wanted. -/
def scalarMeaning (d : Document) (fuel : Nat) (tag : Tag) (n : Node) : Meaning Value :=
  match tag with
  | .moment => Meaning.fail 0 .unfitTag
  | .merge | .value | .unknown => Meaning.fail 0 .unknownTag
  | _ =>
    match valueText? d fuel n with
    | some text => Meaning.ofExcept 0 (tag.scalar d.version text)
    | none => Meaning.fail 0 .unfitTag

/-- The meaning of a node. `around` holds the anchors of the collections around it; an alias of one
of these stands for the collection inside itself. -/
def meaning (d : Document) :
    (fuel : Nat) → (around : List Nat) → Node → StateM Known (Meaning Value)
  | 0, _, _ => return Meaning.fail 0 .tooDeep
  | fuel + 1, around, n => do
    match n with
    | .alias number =>
      if around.contains number then
        modify fun s => { s with loops := number :: s.loops }
        return .ok (.again number .null)
      else
        match (← get).meanings.getD number none with
        | some m => return m
        | none => meaning d fuel around (d.target number)
    | .scalar anchor tag text =>
      let depth := if [Tag.list, .map, .ordered, .pairs, .set].contains tag then 1 else 0
      remember anchor (Meaning.ofExcept depth (tag.scalar d.version text))
    | .list anchor tag items =>
      let around := anchor.toList ++ around
      let m ← match tag with
        | .list => do
          let parts ← items.mapM (meaning d fuel around)
          pure (((Meaning.all none [] parts).below 1).map .list)
        | .ordered => do
          match singleEntries d items with
          | .error e => pure (Meaning.fail 1 e)
          | .ok entries =>
            let parts ← entries.mapM fun (k, v) => do
              return (← meaning d fuel around k, ← meaning d fuel around v)
            pure (((joinOrdered none [] parts).below 1).map .ordered)
        | .pairs => do
          match singleEntries d items with
          | .error e => pure (Meaning.fail 1 e)
          | .ok entries =>
            let parts ← entries.mapM fun (k, v) => do
              let pair := [← meaning d fuel around k, ← meaning d fuel around v]
              return (Meaning.all none [] pair).map Value.tuple
            pure (((Meaning.all none [] parts).below 1).map .list)
        | .map | .set => pure (Meaning.fail 1 .unfitTag)
        | tag => pure (scalarMeaning d fuel tag n)
      remember anchor m
    | .map anchor tag entries =>
      let around := anchor.toList ++ around
      let m ← match tag with
        | .map => do
          let m ← mapMeaning d (meaning d fuel around) fuel around entries
          pure ((m.below 1).map .map)
        | .set => do
          let m ← mapMeaning d (meaning d fuel around) fuel around entries
          pure ((m.below 1).map fun es => .set (es.map Prod.fst))
        | .list | .ordered | .pairs => pure (Meaning.fail 1 .unfitTag)
        | tag => pure (scalarMeaning d fuel tag n)
      remember anchor m

/-- The value of a document. No chain of nodes and aliases is longer than the depth of nodes times
the number of anchors. -/
def value (d : Document) : Except Error Value :=
  let fuel := (maxDepth + 8) * (d.anchored.size + 2)
  let known : Known :=
    { meanings := Array.replicate d.anchored.size none, mark := d.anchored.size }
  let (m, _) := (meaning d fuel [] d.root).run known
  m.mapError Failure.cause

end Document

end PagePress.Yaml
