import PagePress.Toml.Table

/-!
Reading of TOML: lines of keys and values under the headings of tables and of lists of tables.

The headings that follow a table and name something inside it belong to it, and the headings of one
list that follow each other make one list. Everything else is added at the top of the file.

Fuel bounds the steps of reading; all along it exceeds the number of characters that are left.
-/

namespace PagePress.Toml

def skipBlanks (s : List Char) : List Char := s.dropWhile fun c => c == ' ' || c == '\t'

/-- Skips a comment up to the end of its line. -/
def skipComment (s : List Char) : Except Error (List Char) :=
  match s with
  | '#' :: rest =>
    if (rest.takeWhile (· != '\n')).any isForbidden then .error .malformed
    else .ok (rest.dropWhile (· != '\n'))
  | _ => .ok s

/-- Skips white space, newlines and comments. -/
def skipLines : (fuel : Nat) → List Char → Except Error (List Char)
  | 0, s => .ok s
  | fuel + 1, s =>
    match skipBlanks s with
    | '\n' :: rest => skipLines fuel rest
    | '#' :: rest => do skipLines fuel (← skipComment ('#' :: rest))
    | rest => .ok rest

/-- Skips the rest of a line, which may hold a comment only. -/
def endLine (s : List Char) : Except Error (List Char) := do
  match ← skipComment (skipBlanks s) with
  | [] => return []
  | '\n' :: rest => return rest
  | rest => throw (.unexpected rest)

/-! ### Keys -/

def isKeyChar (c : Char) : Bool := c.isAlphanum || c == '_' || c == '-'

/-- Reads a key without points: a string on one line, or a bare word with blanks around it. A blank
inside the word can only be a tab. -/
def readSimpleKey (fuel : Nat) (s : List Char) : Except Error (String × List Char) := do
  let s := skipBlanks s
  if s.head? == some '"' || s.head? == some '\'' then
    let (t, rest) ← orMalformed (readString? fuel s)
    if isLong s then throw (.unexpected rest)
    return (.ofList t, skipBlanks rest)
  else
    let isPart := fun c => isKeyChar c || c == ' ' || c == '\t'
    let word := Text.trimEnd (s.takeWhile isPart)
    if word.isEmpty || word.contains ' ' then throw .malformed
    return (.ofList word, s.dropWhile isPart)

/-- Reads a key with its points, and the white space after it. -/
def readKey : (fuel : Nat) → List Char → Except Error (List String × List Char)
  | 0, _ => .error .malformed
  | fuel + 1, s => do
    let (first, rest) ← readSimpleKey (fuel + 1) s
    match rest with
    | '.' :: rest =>
      let (more, rest) ← readKey fuel rest
      return (first :: more, rest)
    | rest => return ([first], rest)

/-- Reads the equals sign between a key and a value, with blanks around it. -/
def readEquals (s : List Char) : Except Error (List Char) :=
  match skipBlanks s with
  | '=' :: rest =>
    match skipBlanks rest with
    | '=' :: rest => .error (.unexpected ('=' :: rest))
    | rest => .ok rest
  | rest => .error (.unexpected rest)

/-! ### Values -/

/-- How deep values may be nested: a list counts two, a table three. -/
def maxDepth : Nat := 970

/-- The words that a value may begin with. -/
def literalWords : List (List Char × Data) :=
  [("true".toList, .value (.bool true)), ("false".toList, .value (.bool false))]

/-- A number begins here: a sign, a digit or the word for an infinity or for no number. -/
def startsNumber (s : List Char) : Bool :=
  let word := s.takeWhile fun c => !endsWord c
  s.head?.any (fun c => c == '+' || c == '-' || c.isDigit) || word == "inf".toList ||
    word == "nan".toList

mutual

/-- Reads a value. -/
def readValue : (fuel : Nat) → (depth : Nat) → List Char → Except Error (Data × List Char)
  | 0, _, _ => .error .malformed
  | fuel + 1, depth, s => do
    if maxDepth < depth then throw .tooDeep
    match s with
    | '"' :: _ | '\'' :: _ =>
      let (t, rest) ← orMalformed (readString? (fuel + 1) s)
      return (.value (.text (.ofList t)), rest)
    | '[' :: rest =>
      let (items, rest) ← readItems fuel (depth + 2) true rest
      return (.list items, rest)
    | '\x7b' :: rest =>
      let (body, rest) ← readInline fuel (depth + 3) true [] rest
      return (.table (bodyData [] body), rest)
    | _ =>
      match literalWords.find? fun w => w.1.isPrefixOf s with
      | some (word, d) => return (d, s.drop word.length)
      | none =>
        if startsNumber s then orMalformed (readWord? s) else throw (.unexpected s)

/-- Reads the items of a list up to its closing bracket. A character that no value can have ends
the list if it is that bracket, even inside an item. -/
def readItems : (fuel : Nat) → (depth : Nat) → (wanted : Bool) → List Char →
    Except Error (List Data × List Char)
  | 0, _, _, _ => .error .malformed
  | fuel + 1, depth, wanted, s => do
    let s ← skipLines (fuel + 1) s
    if wanted then
      match readValue fuel depth s with
      | .ok (v, rest) =>
        let (items, rest) ← readItems fuel depth false rest
        return (v :: items, rest)
      | .error (.unexpected (']' :: rest)) => return ([], rest)
      | .error e => throw e
    else
      match s with
      | ',' :: rest => readItems fuel depth true rest
      | ']' :: rest => return ([], rest)
      | _ => throw (.unexpected s)

/-- Reads the entries of a table up to its closing brace. -/
def readInline : (fuel : Nat) → (depth : Nat) → (wanted : Bool) → Body → List Char →
    Except Error (Body × List Char)
  | 0, _, _, _, _ => .error .malformed
  | fuel + 1, depth, wanted, b, s => do
    let s ← skipLines (fuel + 1) s
    match s with
    | '\x7d' :: rest => return (b, rest)
    | _ =>
      if !wanted || s.head? == some ',' then throw (.unexpected s)
      let (key, rest) ← readKey (fuel + 1) s
      let (v, rest) ← readValue fuel depth (← readEquals rest)
      let b ← Body.append (fuel + 1) true b (Body.entryOf key v)
      let rest ← skipLines fuel rest
      match rest with
      | ',' :: rest => readInline fuel depth true b rest
      | _ => readInline fuel depth false b rest

end

/-! ### Tables -/

/-- The heading of a table or of one more table of a list. -/
structure Heading where
  path : List String
  isItem : Bool
  deriving DecidableEq, Repr

/-- The heading that begins here and what follows its names. -/
def takeHeading (fuel : Nat) (s : List Char) : Except Error (Heading × List Char) := do
  match s with
  | '[' :: '[' :: rest =>
    let (path, rest) ← readKey fuel rest
    return (⟨path, true⟩, rest)
  | '[' :: rest =>
    let (path, rest) ← readKey fuel rest
    return (⟨path, false⟩, rest)
  | _ => throw .malformed

/-- Reads a heading with its closing brackets and the rest of its line. -/
def readHeading (fuel : Nat) (s : List Char) : Except Error (Heading × List Char) := do
  let (h, rest) ← takeHeading fuel s
  match rest with
  | ']' :: rest => return (h, ← endLine (if h.isItem then rest.drop 1 else rest))
  | rest => throw (.unexpected rest)

/-- A heading names something inside a table. -/
def Heading.isInside (h : Heading) (path : List String) : Bool :=
  path.isPrefixOf h.path && path != h.path

/-- Reads the line of a key and a value. -/
def readEntry (fuel : Nat) (s : List Char) : Except Error ((Key × Item) × List Char) := do
  let (key, rest) ← readKey fuel s
  let (v, rest) ← readValue fuel 0 (← readEquals rest)
  return (Body.entryOf key v, ← endLine rest)

mutual

/-- Reads the table that begins here with its heading, as an entry of the table under the path
`parent`. Unless it is a `sibling` of an earlier one, the tables of its list that follow it belong
to it. -/
def readTable : (fuel : Nat) → (parent : List String) → (sibling : Bool) → List Char →
    Except Error ((Key × Item) × List Char)
  | 0, _, _, _ => .error .tooDeep
  | fuel + 1, parent, sibling, s => do
    let (h, rest) ← readHeading fuel s
    let (body, rest) ← readBody fuel h.path [] rest
    match h.path.drop parent.length with
    | name :: more :: names =>
      let item : Item := if h.isItem then .tables [body] else .table false body
      return ((⟨name, false⟩, Body.headedItem item (more :: names)), rest)
    | names =>
      let key : Key := ⟨names.headD "", false⟩
      if h.isItem && !sibling then
        let (bodies, rest) ← readSiblings fuel h rest
        return ((key, .tables (body :: bodies)), rest)
      else return ((key, .table false body), rest)

/-- Reads the further tables of a list that follow here. -/
def readSiblings : (fuel : Nat) → Heading → List Char → Except Error (List Body × List Char)
  | 0, _, _ => .error .tooDeep
  | fuel + 1, h, s => do
    if s.isEmpty then return ([], s)
    let (next, _) ← takeHeading fuel s
    if next != h then return ([], s)
    else
      let ((_, item), rest) ← readTable fuel h.path true s
      let (bodies, rest) ← readSiblings fuel h rest
      match item with
      | .table _ body => return (body :: bodies, rest)
      | _ => return (bodies, rest)

/-- Reads the lines of the table under a path, and the tables inside it that follow here. -/
def readBody : (fuel : Nat) → (path : List String) → Body → List Char →
    Except Error (Body × List Char)
  | 0, _, _, _ => .error .tooDeep
  | fuel + 1, path, b, s => do
    let s ← skipLines (fuel + 1) s
    match s with
    | [] =>
      Body.agreeAll (fuel + 1) b
      return (b, s)
    | '[' :: _ =>
      let (next, _) ← takeHeading fuel s
      if next.isInside path then
        let (e, rest) ← readTable fuel path false s
        readBody fuel path (← Body.insert (fuel + 1) false b e) rest
      else
        Body.agreeAll (fuel + 1) b
        return (b, s)
    | _ =>
      let (e, rest) ← readEntry fuel s
      readBody fuel path (← Body.insert (fuel + 1) false b e) rest

end

/-! ### Files -/

/-- Adds an entry at the top of a file, where everything that does not fit is malformed. -/
def addAtTop (b : Body) (fuel : Nat) (e : Key × Item) : Except Error Body :=
  (Body.append fuel true b e).mapError fun _ => .malformed

/-- Reads the lines in front of the first heading, and the tables after them. -/
def readTop : (fuel : Nat) → Body → List Char → Except Error Body
  | 0, _, _ => .error .malformed
  | fuel + 1, b, s => do
    match ← skipLines (fuel + 1) s with
    | [] => return b
    | '[' :: rest =>
      let (e, rest) ← readTable (fuel + 1) [] false ('[' :: rest)
      readTop fuel (← addAtTop b (fuel + 1) e) rest
    | s =>
      let (e, rest) ← readEntry fuel s
      readTop fuel (← addAtTop b (fuel + 1) e) rest

/-- A number of steps that is enough for a file: every step takes a character or goes into a table
that is made of some. -/
def steps (text : List Char) : Nat := 4 * text.length + 8

/-- Reads a file. -/
def read (text : List Char) : Except Error Body := readTop (steps text) [] text

/-- Reads what a file says under a key. -/
def readKeyOf (name : String) (text : List Char) : Except Error (Option Data) := do
  (← read text).get? (steps text) name

end PagePress.Toml
