import PagePress.FileTree
import PagePress.Toml.Reader
import PagePress.Text.Blank
import PagePress.Vendor

/-!
Settings: the identifiers of a site at third parties. Each one comes from the caller, from the
environment or from a table of a settings file, and the first of these that gives one is asked.
-/

namespace PagePress

/-- The variables of the environment and their values. -/
abbrev Environment := List (String × String)

/-- Why the settings cannot be read. -/
inductive SettingsError where
  | file (e : FileError)
  | malformed (path : Path)
  | repeatedKey
  | redefinition
  | tooDeep
  | notTable

def SettingsError.message : SettingsError → String
  | file e => e.message
  | malformed path => "Unable to parse settings TOML at " ++ .ofList path.text
  | repeatedKey => "A key of the settings is given twice"
  | redefinition => "A table of the settings is defined twice"
  | tooDeep => "The settings are nested too deeply"
  | notTable => "The settings of the vendors are no table"

namespace Settings

/-- The variables of the environment that hold the identifiers. -/
def analyticsVariable : String := "LANDING_GA_ID"

def adsenseVariable : String := "LANDING_ADSENSE_CLIENT_ID"

/-- The error for a settings file that cannot be read. -/
def errorAt (path : Path) : Toml.Error → SettingsError
  | .malformed | .unexpected _ => .malformed path
  | .repeatedKey => .repeatedKey
  | .redefinition => .redefinition
  | .tooDeep => .tooDeep

/-- The entries under `[vendors]`, which may be missing or count as false. -/
def entriesOf : Option Toml.Data → Except SettingsError (List (String × Toml.Data))
  | none => .ok []
  | some (.table entries) => .ok entries
  | some d => if d.holds then .error .notTable else .ok []

/-- Reads the table of a settings file that holds the identifiers. Without a file or without
the table there are none. -/
def readTable (t : FileTree) (path : Path) :
    Except SettingsError (List (String × Toml.Data)) := do
  match t.read path with
  | .error .notFound => return []
  | .error e => throw (.file e)
  | .ok text => entriesOf (← (Toml.readKeyOf "vendors" text).mapError (errorAt path))

/-- The first of three sources of an identifier that gives one, trimmed. A text that the caller
or the environment gives is taken even if it is blank, and then there is no identifier. -/
def choose (argument setting : Option String) (stored : Option Toml.Data) : Option String :=
  match given? argument, given? setting with
  | some id, _ => Text.nonBlank? id
  | none, some id => Text.nonBlank? id
  | none, none => stored.bind fun d => Text.nonBlank? d.display

/-- Reads the identifiers from their sources. -/
def load (t : FileTree) (env : Environment) (path : Path)
    (analyticsId adsenseClientId : Option String) : Except SettingsError Vendors := do
  let stored ← readTable t path
  return {
    analyticsId :=
      choose analyticsId (env.lookup analyticsVariable) (stored.lookup "analytics_id")
    adsenseClientId :=
      choose adsenseClientId (env.lookup adsenseVariable) (stored.lookup "adsense_client_id") }

end Settings

end PagePress
