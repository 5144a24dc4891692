import PagePress.FileTree
import PagePress.Page.Reading
import PagePress.Yaml.Reader

/-!
Loading a page from a file, which holds YAML or JSON.
-/

namespace PagePress

/-- Why a page cannot be loaded from a file. -/
inductive LoadError where
  | noFile (path : Path)
  | file (e : FileError)
  | yaml (e : Yaml.Error)
  | page (e : PageError)

def LoadError.message : LoadError → String
  | noFile path => "Page model file '" ++ .ofList path.text ++ "' not found."
  | file e => e.message
  | yaml e => e.message
  | page e => e.message

/-- Loads the page that a file holds. A path that leads nowhere is told apart from a file that
cannot be read. -/
def Page.load (t : FileTree) (path : Path) : Except LoadError Page := do
  match t.look path with
  | .error .notFound | .error .notFolder | .error .nullCharacter => throw (.noFile path)
  | .error e => throw (.file e)
  | .ok _ =>
    let text ← (t.read path).mapError .file
    let value ← (Yaml.read text).mapError .yaml
    (Page.read value).mapError .page

end PagePress
