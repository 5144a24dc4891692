import PagePress.Path
import PagePress.Text.Lines
import PagePress.Text.Units

/-!
A tree of files: what stands at each place, and the working directory that paths start from. A
path is followed part by part, each time from a folder that must be there. Reading and writing
change nothing but the entry that they name.
-/

namespace PagePress

/-- A place in a tree: the names of the folders from the top down to it, and its own name. -/
abbrev Place := List (List Char)

/-- What stands at a place. -/
inductive FileEntry where
  | file (text : List Char)
  | folder
  deriving DecidableEq, Repr

/-- Why a file cannot be read or written. -/
inductive FileError where
  | notFound
  | isFolder
  | notFolder
  | alreadyExists
  | nameTooLong
  | nullCharacter
  deriving DecidableEq, Repr

def FileError.message : FileError → String
  | notFound => "no such file or folder"
  | isFolder => "is a folder"
  | notFolder => "is no folder"
  | alreadyExists => "is there already"
  | nameTooLong => "name too long"
  | nullCharacter => "embedded null byte"

/-- The files and folders that were put somewhere, and the working directory. -/
structure FileTree where
  home : Place
  entries : List (Place × FileEntry) := []
  deriving Repr

namespace FileTree

/-- What stands at a place. A place on the way to another one, or to the working directory, is a
folder. -/
def entryAt? (t : FileTree) (place : Place) : Option FileEntry :=
  match t.entries.lookup place with
  | some entry => some entry
  | none =>
    if place.isPrefixOf t.home || t.entries.any (fun e => place.isPrefixOf e.1) then some .folder
    else none

/-- Puts an entry at a place, in place of what was there. -/
def put (place : Place) (entry : FileEntry) (t : FileTree) : FileTree :=
  { t with entries := (place, entry) :: t.entries.filter fun e => e.1 != place }

/-- The longest name that a file can have, in bytes. -/
def nameLimit : Nat := 255

/-- The place that one part of a path leads to from a folder. -/
def step (folder : Place) (part : List Char) : Except FileError Place :=
  if part = ['.', '.'] then .ok folder.dropLast
  else if nameLimit < Text.byteSize part then .error .nameTooLong
  else .ok (folder ++ [part])

/-- The place that the parts of a path lead to from another one. -/
def follow (t : FileTree) (place : Place) : List (List Char) → Except FileError Place
  | [] => .ok place
  | part :: rest => do
    match t.entryAt? place with
    | none => throw .notFound
    | some (.file _) => throw .notFolder
    | some .folder => t.follow (← step place part) rest

/-- The place that a path starts from. -/
def start (t : FileTree) (p : Path) : Place := if p.isAbsolute then [] else t.home

/-- The longest path that can be followed, in bytes. -/
def pathLimit : Nat := 4095

/-- Checks a path as a whole: no name holds a null character, and it is not too long. -/
def check (p : Path) : Except FileError Unit :=
  if p.parts.any (·.contains '\x00') then .error .nullCharacter
  else if pathLimit < Text.byteSize p.text then .error .nameTooLong
  else .ok ()

/-- The place that a path leads to. -/
def locate (t : FileTree) (p : Path) : Except FileError Place := do
  check p
  t.follow (t.start p) p.parts

/-- What stands at the end of a path. -/
def look (t : FileTree) (p : Path) : Except FileError FileEntry := do
  match t.entryAt? (← t.locate p) with
  | some entry => return entry
  | none => throw .notFound

/-- The text of a file, with every kind of newline turned into a line feed. -/
def read (t : FileTree) (p : Path) : Except FileError (List Char) := do
  match ← t.look p with
  | .file text => return Text.unifyNewlines text
  | .folder => throw .isFolder

/-- Writes a file, in place of one that may be there. -/
def write (t : FileTree) (p : Path) (text : List Char) : Except FileError FileTree := do
  let place ← t.locate p
  match t.entryAt? place with
  | some .folder => throw .isFolder
  | _ => return t.put place (.file text)

/-- Makes the folders that are missing on the way from a place along the parts of a path. -/
def makeFoldersFrom (t : FileTree) (place : Place) : List (List Char) → Except FileError FileTree
  | [] =>
    match t.entryAt? place with
    | some (.file _) => .error .alreadyExists
    | _ => .ok t
  | part :: rest => do
    match t.entryAt? place with
    | some (.file _) => throw .notFolder
    | _ =>
      let next ← step place part
      let made := if (t.entryAt? next).isNone then t.put next .folder else t
      made.makeFoldersFrom next rest

/-- Makes the folders of a path that are missing. -/
def makeFolders (t : FileTree) (p : Path) : Except FileError FileTree := do
  check p
  t.makeFoldersFrom (t.start p) p.parts

/-- The text of the file at a place. -/
def textAt? (t : FileTree) (place : Place) : Option (List Char) :=
  match t.entryAt? place with
  | some (.file text) => some text
  | _ => none

theorem entryAt?_put_self (t : FileTree) (place : Place) (entry : FileEntry) :
    (t.put place entry).entryAt? place = some entry := by
  simp [entryAt?, put]

end FileTree

end PagePress
