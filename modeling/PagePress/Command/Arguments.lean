import PagePress.Number.Numeral
import PagePress.Path
import PagePress.Settings
import PagePress.Text.Case

/-!
The words of a command line. An option is a word with two hyphens in front; it takes a text, which
is the next word or follows an equals sign, or it is a switch, which may be negated. In its name an
underscore counts as a hyphen. No option may be given twice. One that is not given at all may come
from a variable of the environment.
-/

namespace PagePress

/-- Why the words of a command line make no command. -/
inductive UsageError where
  | noCommand
  | unknownCommand (word : String)
  | unknownOption (word : String)
  | repeatedOption (name : String)
  | missingValue (name : String)
  | missingOption (name : String)
  | notSwitch (name value : String)
  | extraWord (word : String)
  deriving DecidableEq, Repr

def UsageError.message : UsageError → String
  | noCommand => "a command is needed: compile or validate"
  | unknownCommand word => "unknown command: " ++ word
  | unknownOption word => "unknown option: " ++ word
  | repeatedOption name => "given twice: --" ++ name
  | missingValue name => "a value is needed: --" ++ name
  | missingOption name => "needed: --" ++ name
  | notSwitch name value => "neither yes nor no: --" ++ name ++ "=" ++ value
  | extraWord word => "one word too many: " ++ word

/-- What an option takes. -/
inductive OptionKind where
  | text
  | switch
  deriving DecidableEq, Repr

/-- An option of a command. -/
structure OptionSpec where
  name : String
  kind : OptionKind
  /-- The variables that may stand for the option, the first one that is set before the
  others. -/
  envNames : List String
  deriving Repr

namespace OptionSpec

/-- The variable that is named after an option. -/
def envName (name : String) : String :=
  "LANDING_" ++ .ofList (name.toList.map fun c => if c = '-' then '_' else c.toUpper)

/-- An option that only the variable named after it may stand for. -/
def plain (name : String) (kind : OptionKind) : OptionSpec := ⟨name, kind, [envName name]⟩

end OptionSpec

/-- What was given for an option. -/
inductive Setting where
  | text (s : String)
  | switch (on : Bool)
  deriving DecidableEq, Repr

/-- The words of a command line after the command: options and other words. -/
structure Arguments where
  settings : List (String × Setting) := []
  words : List String := []
  deriving Repr

namespace Arguments

/-- The words that switch something on and off. -/
def switchWords : List (String × Bool) :=
  [("yes", true), ("y", true), ("1", true), ("true", true), ("t", true),
    ("no", false), ("n", false), ("0", false), ("false", false), ("f", false)]

/-- Reads a switch of the given name. -/
def readSwitch (name value : String) : Except UsageError Bool :=
  match switchWords.lookup (Text.lowered value) with
  | some on => .ok on
  | none => .error (.notSwitch name value)

/-- A word that has the form of an option: a hyphen in front, but no negative number. The unit of
the imaginary numbers alone counts as an option. -/
def isOption (word : String) : Bool :=
  let s := word.toList
  s.head? == some '-' && (["-j", "-J"].contains word || !Number.isNumeral s)

/-- Splits a word at its first equals sign. -/
def splitValue (word : String) : String × Option String :=
  let isName := fun c : Char => c != '='
  match word.toList.dropWhile isName with
  | [] => (word, none)
  | _ :: value => (.ofList (word.toList.takeWhile isName), some (.ofList value))

/-- The name of an option with hyphens in place of underscores. -/
def hyphenated (name : String) : String :=
  match name.toList with
  | '-' :: '-' :: rest => .ofList ('-' :: '-' :: rest.map fun c => if c = '_' then '-' else c)
  | _ => name

/-- What the name of an option says: which option it is, and whether it is negated. -/
def find? (specs : List OptionSpec) (name : String) : Option (OptionSpec × Bool) :=
  let name := hyphenated name
  let positive := specs.find? fun s => name == "--" ++ s.name
  let negative := specs.find? fun s => s.kind == .switch && name == "--no-" ++ s.name
  (positive.map (·, false)).orElse fun _ => negative.map (·, true)

/-- Adds what was given for an option. -/
def add (a : Arguments) (name : String) (s : Setting) : Except UsageError Arguments :=
  if (a.settings.lookup name).isSome then .error (.repeatedOption name)
  else .ok { a with settings := a.settings ++ [(name, s)] }

/-- Reads words after those read before. After two hyphens alone no word is an option. -/
def readAfter (specs : List OptionSpec) (a : Arguments) : List String → Except UsageError Arguments
  | [] => .ok a
  | word :: rest => do
    if word = "--" then return { a with words := a.words ++ rest }
    else if !isOption word then readAfter specs { a with words := a.words ++ [word] } rest
    else
      let (name, value) := splitValue word
      match find? specs name, value, rest with
      | none, _, _ => throw (.unknownOption word)
      | some (⟨name, .switch, _⟩, negated), none, rest =>
        readAfter specs (← a.add name (.switch !negated)) rest
      | some (⟨name, .switch, _⟩, negated), some value, rest =>
        readAfter specs (← a.add name (.switch ((← readSwitch name value) != negated))) rest
      | some (⟨name, .text, _⟩, _), some value, rest =>
        readAfter specs (← a.add name (.text value)) rest
      | some (⟨name, .text, _⟩, _), none, [] => throw (.missingValue name)
      | some (⟨name, .text, _⟩, _), none, value :: rest =>
        if isOption value then throw (.missingValue name)
        else readAfter specs (← a.add name (.text value)) rest

/-- The value of the first variable that is set. -/
def fromVariables? (env : Environment) (spec : OptionSpec) : Option String :=
  spec.envNames.findSome? fun name => env.lookup name

/-- Adds what the environment says about the options that were not given. -/
def addVariables (env : Environment) (a : Arguments) :
    List OptionSpec → Except UsageError Arguments
  | [] => .ok a
  | spec :: specs => do
    match a.settings.lookup spec.name, fromVariables? env spec with
    | none, some value =>
      let setting ← match spec.kind with
        | .text => pure (Setting.text value)
        | .switch => Setting.switch <$> readSwitch spec.name value
      addVariables env (← a.add spec.name setting) specs
    | _, _ => addVariables env a specs

/-- Reads the words of a command line. -/
def read (specs : List OptionSpec) (env : Environment) (words : List String) :
    Except UsageError Arguments := do
  addVariables env (← readAfter specs {} words) specs

/-- The text given for an option. -/
def text? (a : Arguments) (name : String) : Option String :=
  match a.settings.lookup name with
  | some (.text s) => some s
  | _ => none

/-- The text given for an option that must be given. -/
def text (a : Arguments) (name : String) : Except UsageError String :=
  match a.text? name with
  | some s => .ok s
  | none => .error (.missingOption name)

/-- The switch given, or a default. -/
def switch (a : Arguments) (name : String) (default : Bool) : Bool :=
  match a.settings.lookup name with
  | some (.switch on) => on
  | _ => default

end Arguments

end PagePress
