import PagePress.Yaml.Property

/-!
Tokens of a YAML document. The layout of blocks is told by tokens of its own: where a block
collection starts, and where it ends.
-/

namespace PagePress.Yaml

/-- How a scalar is written. -/
inductive ScalarForm where
  | plain
  | quoted
  | block
  deriving DecidableEq, Repr

/-- A pair of brackets. -/
inductive Bracket where
  | square
  | curly
  deriving DecidableEq, Repr

/-- A token of a document. -/
inductive Token where
  | directive (d : Directive)
  | documentStart
  /-- The mark of the end of a document, and whether its line holds nothing more. -/
  | documentEnd (alone : Bool)
  | blockList
  | blockMap
  | blockEnd
  | opening (b : Bracket)
  | closing (b : Bracket)
  | comma
  | item
  | key
  | value
  | alias (name : String)
  | anchor (name : String)
  | tag (t : WrittenTag)
  | scalar (form : ScalarForm) (text : List Char)
  deriving DecidableEq, Repr

/-- The tokens of a document up to the place where no further token can be read, and why there is
none. -/
structure Tokens where
  list : List Token
  version : Version
  failure : Option Error

end PagePress.Yaml
