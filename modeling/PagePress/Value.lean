import PagePress.Calendar
import PagePress.Number.Shortest
import PagePress.Text.Quoted

/-!
Values of a page document: what its JSON or YAML text spells. A mapping keeps its entries in the
order in which their keys first appear. Every value has a text of its own, which is what a page
shows when a value of another kind stands where a text is expected.
-/

namespace PagePress

/-- A value of a page document. -/
inductive Value where
  | null
  | bool (b : Bool)
  | int (n : Int)
  | float (x : Number.Binary64)
  | text (s : String)
  | date (d : Calendar.Date)
  | moment (m : Calendar.Moment)
  | bytes (octets : List UInt8)
  | list (items : List Value)
  /-- A list of fixed length, which may be the key of a mapping. -/
  | tuple (items : List Value)
  | set (items : List Value)
  | map (entries : List (Value × Value))
  /-- A mapping that is written as a list of entries. -/
  | ordered (entries : List (Value × Value))
  /-- A collection that stands inside itself or around one that does. Inside of the collection with
  its mark it is that collection once more; `whole` is what it is when it is read from here. -/
  | again (mark : Nat) (whole : Value)
  deriving Inhabited, Repr

namespace Value

/-- The name of a value's kind in messages. -/
def kindName : Value → String
  | null => "NoneType"
  | bool _ => "bool"
  | int _ => "int"
  | float _ => "float"
  | text _ => "str"
  | date _ => "date"
  | moment _ => "datetime"
  | bytes _ => "bytes"
  | list _ => "list"
  | tuple _ => "tuple"
  | set _ => "set"
  | map _ => "dict"
  | ordered _ => "ordereddict"
  | again _ whole => kindName whole

/-- An octet inside quotes. -/
def octetText (mark : Char) (o : UInt8) : List Char :=
  let c := Char.ofNat o.toNat
  if o < 0x7F then Text.quoteChar mark c else '\\' :: 'x' :: Text.hexDigits 2 o.toNat

/-- Octets between quotes behind a `b`. -/
def octetsText (octets : List UInt8) : List Char :=
  let mark := Text.quoteMark (octets.map fun o => Char.ofNat o.toNat)
  'b' :: mark :: octets.flatMap (octetText mark) ++ [mark]

/-- What stands for a collection inside itself. -/
def againText : Value → List Char
  | map _ => "\x7b...\x7d".toList
  | set _ => "set(...)".toList
  | list _ => "[...]".toList
  | _ => "...".toList

mutual

/-- The text of a value inside a list or a mapping, where texts are quoted. `around` holds the marks
of the collections around it. -/
def inner (around : List Nat) : Value → List Char
  | null => "None".toList
  | bool true => "True".toList
  | bool false => "False".toList
  | int n => (toString n).toList
  | float x => x.text.toList
  | text s => Text.quote s.toList
  | date d => d.namedText "datetime.date"
  | moment m => m.namedText "datetime.datetime"
  | bytes octets => octetsText octets
  | list items => '[' :: innerItems around items ++ [']']
  | tuple [v] => '(' :: inner around v ++ [',', ')']
  | tuple items => '(' :: innerItems around items ++ [')']
  | set [] => "set()".toList
  | set items => '\x7b' :: innerItems around items ++ ['\x7d']
  | map entries => '\x7b' :: innerEntries around entries ++ ['\x7d']
  | ordered [] => "ordereddict()".toList
  | ordered entries => "ordereddict([".toList ++ innerPairs around entries ++ [']', ')']
  | again mark whole =>
    if around.contains mark then againText whole else inner (mark :: around) whole

/-- The texts of some values, separated by commas. -/
def innerItems (around : List Nat) : List Value → List Char
  | [] => []
  | [v] => inner around v
  | v :: rest => inner around v ++ ',' :: ' ' :: innerItems around rest

/-- The texts of some entries, separated by commas. -/
def innerEntries (around : List Nat) : List (Value × Value) → List Char
  | [] => []
  | [(k, v)] => inner around k ++ ':' :: ' ' :: inner around v
  | (k, v) :: rest =>
    inner around k ++ ':' :: ' ' :: inner around v ++ ',' :: ' ' :: innerEntries around rest

/-- The texts of some entries as pairs, separated by commas. -/
def innerPairs (around : List Nat) : List (Value × Value) → List Char
  | [] => []
  | [(k, v)] => '(' :: inner around k ++ ',' :: ' ' :: inner around v ++ [')']
  | (k, v) :: rest =>
    '(' :: inner around k ++ ',' :: ' ' :: inner around v ++ ')' :: ',' :: ' ' ::
      innerPairs around rest

end

/-- The text of a value as it is cited in a message: a text is quoted. -/
def cited (v : Value) : String := .ofList (inner [] v)

/-- The text of a value on its own: a text is itself. -/
def display : Value → String
  | text s => s
  | date d => .ofList d.text
  | moment m => .ofList m.text
  | v => v.cited

/-- Whether a value counts as true: not null, false, zero or empty. -/
def holds : Value → Bool
  | null => false
  | bool b => b
  | int n => n != 0
  | float x => !x.isZero
  | text s => !s.isEmpty
  | date _ | moment _ => true
  | bytes octets => !octets.isEmpty
  | list items | tuple items | set items => !items.isEmpty
  | map entries | ordered entries => !entries.isEmpty
  | again _ whole => holds whole

/-- The entries of a mapping. -/
def entries? : Value → Option (List (Value × Value))
  | map entries | ordered entries => some entries
  | again _ whole => entries? whole
  | _ => none

/-- The items of a list. -/
def items? : Value → Option (List Value)
  | list items => some items
  | again _ whole => items? whole
  | _ => none

/-- The entry of a mapping under a text key. -/
def lookup? (key : String) : List (Value × Value) → Option Value
  | [] => none
  | (.text k, v) :: rest => if k = key then some v else lookup? key rest
  | _ :: rest => lookup? key rest

end Value

end PagePress
