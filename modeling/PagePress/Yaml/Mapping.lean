import PagePress.Yaml.Cursor
import PagePress.Value

/-!
Keys and entries of mappings. A key is a value that cannot change, so a list turns into a tuple
when it becomes a key. Two keys are the same key if they are equal as values.
-/

namespace PagePress.Yaml

/-- The whole number that a key counts as. Truth values count as one and zero. -/
def keyNumber? : Value → Option Int
  | .int n => some n
  | .bool b => some (if b then 1 else 0)
  | .float x => x.toInt?
  | _ => none

mutual

/-- Two keys are the same key. Numbers are compared by value. -/
def sameKey : Value → Value → Bool
  | .null, .null => true
  | .text s, .text t => s == t
  | .date d, .date e => d == e
  | .moment m, .moment n => m.same n
  | .bytes o, .bytes p => o == p
  | .tuple xs, .tuple ys => sameKeys xs ys
  | .float x, .float y => x == y || (x.isZero && y.isZero)
  | a, b =>
    match keyNumber? a, keyNumber? b with
    | some n, some m => n == m
    | _, _ => false

/-- Two tuples hold the same keys in the same order. -/
def sameKeys : List Value → List Value → Bool
  | [], [] => true
  | x :: xs, y :: ys => sameKey x y && sameKeys xs ys
  | _, _ => false

end

mutual

/-- A value that cannot change. -/
def isFixed : Value → Bool
  | .list _ | .set _ | .map _ | .ordered _ | .again .. => false
  | .tuple items => areFixed items
  | _ => true

/-- Some values that cannot change. -/
def areFixed : List Value → Bool
  | [] => true
  | v :: rest => isFixed v && areFixed rest

end

/-- The key that a value becomes. -/
def asKey : Value → Except Error Value
  | .list items => .ok (.tuple items)
  | .again mark (.list items) => .ok (.tuple [.again mark (.list items)])
  | v => match v with
    | .set _ | .map _ | .ordered _ | .again .. => .error .badKey
    | _ => .ok v

/-- Puts an entry into a mapping: in place of the one with the same key, or at the end. -/
def putEntry (key value : Value) : List (Value × Value) → List (Value × Value)
  | [] => [(key, value)]
  | (k, v) :: rest =>
    if sameKey k key then (k, value) :: rest else (k, v) :: putEntry key value rest

/-- A mapping has an entry with the given key. -/
def hasKey (key : Value) (entries : List (Value × Value)) : Bool :=
  entries.any fun e => sameKey e.1 key

/-! ### Collections inside themselves -/

/-- The empty collection of the kind of a value. -/
def hollow : Value → Value
  | .map _ => .map []
  | .ordered _ => .ordered []
  | .set _ => .set []
  | _ => .list []

mutual

/-- A value has a collection that stands inside itself or around one that does. -/
def loops : Value → Bool
  | .again .. => true
  | .list items | .tuple items | .set items => itemsLoop items
  | .map entries | .ordered entries => entriesLoop entries
  | _ => false

def itemsLoop : List Value → Bool
  | [] => false
  | v :: rest => loops v || itemsLoop rest

def entriesLoop : List (Value × Value) → Bool
  | [] => false
  | (_, v) :: rest => loops v || entriesLoop rest

end

mutual

/-- Says what the collection behind a mark is where it stands inside itself. -/
def tie (mark : Nat) (whole : Value) : Value → Value
  | .again m w => .again m (if m = mark then whole else tie mark whole w)
  | .list items => .list (tieItems mark whole items)
  | .tuple items => .tuple (tieItems mark whole items)
  | .set items => .set (tieItems mark whole items)
  | .map entries => .map (tieEntries mark whole entries)
  | .ordered entries => .ordered (tieEntries mark whole entries)
  | v => v

def tieItems (mark : Nat) (whole : Value) : List Value → List Value
  | [] => []
  | v :: rest => tie mark whole v :: tieItems mark whole rest

def tieEntries (mark : Nat) (whole : Value) : List (Value × Value) → List (Value × Value)
  | [] => []
  | (k, v) :: rest => (tie mark whole k, tie mark whole v) :: tieEntries mark whole rest

end

/-- What a collection is where it stands inside itself: the whole of it, and empty where it stands
inside itself there. -/
def wholeOf (mark : Nat) (v : Value) : Value := tie mark (hollow v) v

end PagePress.Yaml
