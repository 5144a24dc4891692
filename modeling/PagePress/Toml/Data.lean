import PagePress.Value

/-!
What a TOML file says: values, lists, and tables whose entries keep the order in which their keys
first appear.
-/

namespace PagePress.Toml

/-- A value of a file. -/
inductive Data where
  /-- A truth value, a number or a text. -/
  | value (v : Value)
  | date (d : Calendar.Date)
  | time (t : Calendar.Time)
  | moment (m : Calendar.Moment)
  | list (items : List Data)
  | table (entries : List (String × Data))
  /-- The tables under headings of one name. -/
  | tables (items : List Data)
  deriving Inhabited

namespace Data

mutual

/-- The text of a value inside a list or a table. -/
def inner : Data → List Char
  | value v => v.inner []
  | date d => d.namedText "Date"
  | time t => t.namedText "Time"
  | moment m => m.namedText "DateTime"
  | list items | tables items => '[' :: innerItems items ++ [']']
  | table entries => '\x7b' :: innerEntries entries ++ ['\x7d']

/-- The texts of some values, separated by commas. -/
def innerItems : List Data → List Char
  | [] => []
  | [v] => inner v
  | v :: rest => inner v ++ ',' :: ' ' :: innerItems rest

/-- The texts of some entries, separated by commas. -/
def innerEntries : List (String × Data) → List Char
  | [] => []
  | [(k, v)] => Text.quote k.toList ++ ':' :: ' ' :: inner v
  | (k, v) :: rest =>
    Text.quote k.toList ++ ':' :: ' ' :: inner v ++ ',' :: ' ' :: innerEntries rest

end

/-- The text of a value on its own. -/
def display : Data → String
  | value v => v.display
  | date d => .ofList d.text
  | time t => .ofList t.text
  | moment m => .ofList m.text
  | tables items => .ofList ("<AoT ".toList ++ inner (list items) ++ ['>'])
  | v => .ofList (inner v)

/-- Whether a value counts as true: not false, zero or empty. -/
def holds : Data → Bool
  | value v => v.holds
  | date _ | time _ | moment _ => true
  | list items | tables items => !items.isEmpty
  | table entries => !entries.isEmpty

/-- Puts an entry into a table: in place of the one with its key, or at the end. -/
def put (key : String) (v : Data) : List (String × Data) → List (String × Data)
  | [] => [(key, v)]
  | (k, w) :: rest => if k = key then (k, v) :: rest else (k, w) :: put key v rest

mutual

/-- Adds a value under a key. A table joins the one that is there already. -/
def addEntry (old : List (String × Data)) (key : String) : Data → List (String × Data)
  | table entries =>
    match old.lookup key with
    | some (table before) => put key (table (addEntries before entries)) old
    | _ => put key (table entries) old
  | v => put key v old

/-- Adds the entries of a further table. -/
def addEntries (old : List (String × Data)) : List (String × Data) → List (String × Data)
  | [] => old
  | (k, v) :: rest => addEntries (addEntry old k v) rest

end

end Data

end PagePress.Toml
