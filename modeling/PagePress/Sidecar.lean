import PagePress.Compile
import PagePress.Json.Literal
import PagePress.Path

/-!
The record that is stored beside a document: a JSON file with one entry to a line.
-/

namespace PagePress

/-- What is recorded about a document. -/
structure Sidecar where
  pageId : String
  output : List Char
  size : Nat
  warnings : List String
  generatedAt : String
  version : String
  checksum : List Char
  deriving DecidableEq, Repr

namespace Sidecar

/-- The record of a page that was compiled into a file of the given name. -/
def ofOutput (pageId : String) (name : List Char) (out : Output) : Sidecar where
  pageId
  output := name
  size := out.size
  warnings := out.warnings.map Warning.message
  generatedAt := out.generatedAt
  version := Document.version
  checksum := out.checksum

/-- Items between two brackets, each on a line of its own at the given depth; brackets alone if
there are no items. -/
def block (opening closing : Char) (depth : Nat) (items : List (List Char)) : List Char :=
  let margin (depth : Nat) : List Char := '\n' :: List.replicate (2 * depth) ' '
  if items.isEmpty then [opening, closing]
  else
    opening :: List.intercalate [','] (items.map (margin (depth + 1) ++ ·)) ++ margin depth ++
      [closing]

/-- The entries of a record in order, as JSON. -/
def fields (r : Sidecar) : List (String × List Char) :=
  [("page_id", Json.quoted r.pageId.toList), ("output", Json.quoted r.output),
    ("size", Nat.toDigits 10 r.size),
    ("warnings", block '[' ']' 1 (r.warnings.map fun w => Json.quoted w.toList)),
    ("generated_at", Json.quoted r.generatedAt.toList),
    ("version", Json.quoted r.version.toList), ("checksum", Json.quoted r.checksum)]

/-- The text of a record. -/
def text (r : Sidecar) : List Char :=
  block '\x7b' '\x7d' 0 (r.fields.map fun (key, value) =>
    Json.quoted key.toList ++ ':' :: ' ' :: value) ++ ['\n']

/-- Where the record of a page is stored: in the folder of its document. -/
def path (output : Path) (pageId : String) : Path :=
  output.parent.join (.ofText (".landing-".toList ++ pageId.toList ++ "-meta.json".toList))

end Sidecar

end PagePress
