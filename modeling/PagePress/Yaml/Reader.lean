import PagePress.Yaml.Meaning
import PagePress.Yaml.Token.Lexer

/-!
Reading of YAML: the text is cut into tokens, these make up the nodes of a document, and the nodes
have a meaning.
-/

namespace PagePress.Yaml

/-- A character that a document may contain. -/
def isAllowed (c : Char) : Bool :=
  let n := c.toNat
  c == '\t' || c == '\n' || c == '\r' || (0x20 ≤ n && n ≤ 0x7E) || n == 0x85 ||
    (0xA0 ≤ n && n ≤ 0xFFFD) || 0x10000 ≤ n

/-- Reads a text that holds one document; an empty text holds null. -/
def read (s : List Char) : Except Error Value := do
  if !s.all isAllowed then throw .forbiddenCharacter
  (← Document.ofTokens (.read s)).value

end PagePress.Yaml
