import PagePress.Toml.Scalar

/-!
Tables of a TOML file as they grow. A table may come in several pieces: a dotted key or a heading
with further names makes the tables on its way, and these are implied until they get a heading of
their own. What may be added depends on what is there: no value is given twice, no table gets a
second heading, and pieces that lie apart have to agree when they are put together.
-/

namespace PagePress.Toml

/-- A key of a table, and whether it was written as part of a dotted key. -/
structure Key where
  name : String
  dotted : Bool := false
  deriving DecidableEq, Repr

/-- What a key of a table stands for. -/
inductive Item where
  | value (d : Data)
  /-- A piece of a table; it is implied until it has a heading of its own. -/
  | table (implied : Bool) (body : List (Key × Item))
  /-- The tables under headings of one name. -/
  | tables (bodies : List (List (Key × Item)))
  deriving Inhabited

/-- The entries of a table, piece by piece. -/
abbrev Body := List (Key × Item)

namespace Body

/-- The pieces under a name. -/
def pieces (name : String) (b : Body) : Body := b.filter fun e => e.1.name == name

/-- Several pieces stand under a name. -/
def isSplit (name : String) (b : Body) : Bool := 1 < (b.pieces name).length

/-- The names of the keys, each once. -/
def names (b : Body) : List String :=
  b.foldl (fun ns e => if ns.contains e.1.name then ns else ns ++ [e.1.name]) []

/-- The last name that stands for a table. -/
def lastTable? (b : Body) : Option String :=
  b.foldl (fun last e => match e.2 with
    | .table .. => some e.1.name
    | _ => last) none

/-- Replaces the last item under a name. -/
def replaceLast (name : String) (item : Item) (b : Body) : Body :=
  let after := (b.reverse.takeWhile fun e => e.1.name != name).reverse
  match b.reverse.dropWhile fun e => e.1.name != name with
  | [] => b
  | (key, _) :: before => before.reverse ++ (key, item) :: after

/-- The entries of all pieces of a table. -/
def gathered (pieces : Body) : Body :=
  pieces.flatMap fun e => match e.2 with
    | .table _ body => body
    | _ => []

/-- Adds an entry behind the last piece under its name, which has to be a table. -/
def pile (b : Body) (e : Key × Item) : Except Error Body :=
  match (b.pieces e.1.name).getLast? with
  | none | some (_, .table ..) => .ok (b ++ [e])
  | some _ => .error .repeatedKey

mutual

/-- Adds an entry. Pieces of a table are joined as long as no other table stands between them; if
`checked`, pieces that lie apart are put together at once for a check. -/
def append : (fuel : Nat) → (checked : Bool) → Body → Key × Item → Except Error Body
  | 0, _, _, _ => .error .tooDeep
  | fuel + 1, checked, b, (key, item) => do
    lookAt fuel b key.name
    match (b.pieces key.name).getLast?, item with
    | none, _ => return b ++ [(key, item)]
    | some (old, .table true before), .table true body =>
      if key.dotted || old.dotted || b.lastTable? != some key.name then
        let b := b ++ [(key, item)]
        if checked then agree fuel b key.name
        return b
      else
        let joined ← body.foldlM (insert fuel true) before
        return b.replaceLast key.name (.table true joined)
    | some (old, .table true _), .table false _ =>
      if old.dotted then throw .redefinition else return b ++ [(key, item)]
    | some (_, .table false _), .table true _ => return b ++ [(key, item)]
    | some (_, .tables before), .tables bodies =>
      return b.replaceLast key.name (.tables (before ++ bodies))
    | _, _ => throw .repeatedKey

/-- Adds an entry to a table and looks at what is then under its key. -/
def insert : (fuel : Nat) → (checked : Bool) → Body → Key × Item → Except Error Body
  | 0, _, _, _ => .error .tooDeep
  | fuel + 1, checked, b, e => do
    let b ← append fuel checked b e
    lookAt fuel b e.1.name
    return b

/-- Puts the pieces under a name together to look at them. Values may not meet there. -/
def lookAt : (fuel : Nat) → Body → String → Except Error Unit
  | 0, _, _ => .error .tooDeep
  | fuel + 1, b, name => do
    if b.isSplit name then
      agreeAll fuel (← (gathered (b.pieces name)).foldlM pile [])

/-- Checks that the pieces under a name agree. -/
def agree : (fuel : Nat) → Body → String → Except Error Unit
  | 0, _, _ => .error .tooDeep
  | fuel + 1, b, name => do
    if b.isSplit name then
      agreeAll fuel (← (gathered (b.pieces name)).foldlM (append fuel false) [])

/-- Checks that the pieces under every name agree. -/
def agreeAll : (fuel : Nat) → Body → Except Error Unit
  | 0, _ => .error .tooDeep
  | fuel + 1, b => b.names.forM (agree fuel b)

end

/-- The item that a dotted key stands for under its first name: a table on the way to the value for
every further name. -/
def dottedItem (d : Data) : List String → Item
  | [] => .value d
  | [name] => .table true [(⟨name, false⟩, .value d)]
  | name :: names => .table true [(⟨name, true⟩, dottedItem d names)]

/-- The entry of a value under a key with points. -/
def entryOf (names : List String) (d : Data) : Key × Item :=
  match names with
  | [] => (⟨"", false⟩, .value d)
  | [name] => (⟨name, false⟩, .value d)
  | name :: names => (⟨name, true⟩, dottedItem d names)

/-- The item that a heading stands for under the first of several names. -/
def headedItem (item : Item) : List String → Item
  | [] => item
  | name :: names => .table true [(⟨name, false⟩, headedItem item names)]

end Body

/-! ### What tables say -/

mutual

/-- What an item says. -/
def Item.data : Item → Data
  | .value d => d
  | .table _ body => .table (bodyData [] body)
  | .tables bodies => .tables (bodiesData bodies)

/-- The entries of a table after those of `done`, with its pieces put together. -/
def bodyData (done : List (String × Data)) : List (Key × Item) → List (String × Data)
  | [] => done
  | (key, item) :: rest => bodyData (Data.addEntry done key.name item.data) rest

/-- The tables under headings of one name. -/
def bodiesData : List (List (Key × Item)) → List Data
  | [] => []
  | body :: rest => .table (bodyData [] body) :: bodiesData rest

end

/-- What stands under a key. The pieces of a table have to agree, and so have those of the tables
in it. -/
def Body.get? (fuel : Nat) (b : Body) (name : String) : Except Error (Option Data) := do
  lookAt fuel b name
  let inside := gathered (b.pieces name)
  inside.names.forM (lookAt fuel inside)
  return (bodyData [] b).lookup name

end PagePress.Toml
