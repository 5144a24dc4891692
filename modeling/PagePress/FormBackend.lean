import PagePress.Text.Blank
import PagePress.Text.Case
import PagePress.Text.Quoted

/-!
The backends that a contact form can be wired to, and the names they go by.
-/

namespace PagePress

/-- Where the form of a page sends what a visitor has entered. -/
inductive FormBackend where
  | hostedService
  | platformNative
  | customEndpoint
  deriving DecidableEq, Repr, Inhabited

/-- A name that no backend goes by. -/
structure UnknownBackend where
  name : String
  deriving DecidableEq, Repr

def UnknownBackend.message (e : UnknownBackend) : String :=
  Text.quoted e.name ++ " is not a valid FormService"

namespace FormBackend

def name : FormBackend → String
  | hostedService => "hosted-form-service"
  | platformNative => "platform-native-forms"
  | customEndpoint => "custom-endpoint"

/-- The names that backends go by: their own, and those of earlier editors. -/
def names : List (String × FormBackend) :=
  [("hosted-form-service", hostedService), ("platform-native-forms", platformNative),
    ("custom-endpoint", customEndpoint), ("formspree", hostedService),
    ("netlify-forms", platformNative), ("netlify", platformNative), ("custom", customEndpoint)]

/-- The backend that a text names, with white space at its ends and letter case ignored. -/
def parse (text : String) : Except UnknownBackend FormBackend :=
  let name := Text.lowered (Text.trimmed text)
  match names.lookup name with
  | some backend => .ok backend
  | none => .error ⟨name⟩

end FormBackend

/-- The backend of a page's forms as it was chosen: a backend, or a name that is read only when
a form needs it. -/
inductive FormChoice where
  | backend (b : FormBackend)
  | named (name : String)
  deriving DecidableEq, Repr, Inhabited

namespace FormChoice

/-- The name under which a form announces its backend. -/
def name : FormChoice → String
  | backend b => b.name
  | named s => s

/-- The chosen backend, unless the name is unknown. -/
def resolve : FormChoice → Except UnknownBackend FormBackend
  | backend b => .ok b
  | named s => FormBackend.parse s

end FormChoice

end PagePress
