import PagePress.Command.Arguments
import PagePress.LoadReport
import PagePress.Page.File
import PagePress.Sidecar

/-!
The two commands of the program. One compiles a page into a document and stores a record of it in
the same folder; the other inspects a document. A run of a command starts from a tree of files, an
environment and a clock, and ends with the files as it leaves them, the lines that it prints and
the reason why it stopped, if it did.
-/

namespace PagePress

/-- What is asked of a compilation: the file of the page, where the document goes, the file of
the settings, and how the page is to be compiled. -/
structure CompileRequest where
  page : Path
  output : Path
  config : Path
  formService : String := FormBackend.customEndpoint.name
  minify : Bool := true
  analytics : Bool := false
  adsense : Bool := false
  animations : Bool := true
  deriving DecidableEq, Repr

/-- A command with all its arguments. -/
inductive Command where
  /-- Compiles a page into a document. -/
  | compile (request : CompileRequest)
  /-- Inspects a document, with a report on its cost if that is wanted. -/
  | validate (path : Path) (performance : Bool)
  deriving DecidableEq, Repr

namespace Command

/-! ### Reading of a command line -/

def compileOptions : List OptionSpec :=
  [.plain "page" .text, .plain "output" .text, .plain "form-service" .text,
    .plain "minify" .switch, .plain "analytics" .switch, .plain "adsense" .switch,
    .plain "animations" .switch, ⟨"config", .text, ["LANDING_CONFIG_FILE", "LANDING_CONFIG"]⟩,
    .plain "verbose" .switch]

def validateOptions : List OptionSpec := [.plain "path" .text, .plain "performance" .switch]

def pathOf (s : String) : Path := .ofText s.toList

/-- Reads the arguments of a compilation. No word but an option is allowed. -/
def readCompile (defaultConfig : Path) (env : Environment) (words : List String) :
    Except UsageError Command := do
  let a ← Arguments.read compileOptions env words
  match a.words with
  | word :: _ => throw (.extraWord word)
  | [] =>
    let base : CompileRequest :=
      { page := pathOf (← a.text "page"), output := pathOf (← a.text "output"),
        config := defaultConfig }
    return .compile { base with
      config := ((a.text? "config").map pathOf).getD base.config
      formService := (a.text? "form-service").getD base.formService
      minify := a.switch "minify" base.minify
      analytics := a.switch "analytics" base.analytics
      adsense := a.switch "adsense" base.adsense
      animations := a.switch "animations" base.animations }

/-- Reads the arguments of an inspection. The document may be named without an option, and then
its option may not be given. -/
def readValidate (env : Environment) (words : List String) : Except UsageError Command := do
  let a ← Arguments.readAfter validateOptions {} words
  let a ← match a.words with
    | [] => pure a
    | [word] => Arguments.add { a with words := [] } "path" (.text word)
    | _ :: word :: _ => throw (.extraWord word)
  let a ← a.addVariables env validateOptions
  return .validate (pathOf (← a.text "path")) (a.switch "performance" false)

/-- Reads a command line. -/
def read (defaultConfig : Path) (env : Environment) : List String → Except UsageError Command
  | [] => .error .noCommand
  | name :: words =>
    if name = "compile" then readCompile defaultConfig env words
    else if name = "validate" then readValidate env words
    else .error (.unknownCommand name)

/-- The variables of the environment that a command may ask for. -/
def envNames : List String :=
  (compileOptions ++ validateOptions).flatMap OptionSpec.envNames ++
    [Settings.analyticsVariable, Settings.adsenseVariable]

/-- The paths that a command follows. -/
def paths : Command → List Path
  | compile r => [r.page, r.config, r.output]
  | validate path _ => [path]

/-! ### Running -/

/-- Why a command stopped. -/
inductive Failure where
  | load (e : LoadError)
  | form (e : UnknownBackend)
  | settings (e : SettingsError)
  | compile (e : CompileError)
  | file (e : FileError)

def Failure.message : Failure → String
  | load e => e.message
  | form e => e.message
  | settings e => e.message
  | compile e => e.message
  | file e => e.message

/-- How a run of a command ended. -/
structure Outcome where
  files : FileTree
  /-- The lines that were printed. -/
  printed : List String := []
  failure : Option Failure := none

/-- A path as it is printed: one below the working directory without that. -/
def shown (home : Place) (p : Path) : String :=
  .ofList ((if p.isAbsolute then (Path.relativeTo? ⟨.top, home⟩ p).getD p else p).text)

/-- The line about a warning. -/
def warningLine (message : String) : String := "warning: " ++ message

/-- Loads a page and the settings, and compiles the page. -/
def compilePage (t : FileTree) (env : Environment) (clock : ClockReading) (r : CompileRequest) :
    Except Failure (Page × Output) := do
  let page ← (Page.load t r.page).mapError .load
  let backend ← (FormBackend.parse r.formService).mapError .form
  let vendors ← (Settings.load t env r.config none none).mapError .settings
  let options : Options :=
    { minify := r.minify, analytics := r.analytics, adsense := r.adsense,
      form := .backend backend, animations := r.animations }
  let out ← (PagePress.compile vendors options clock page).mapError .compile
  return (page, out)

/-- Stores a document and then its record, and stops where one of them cannot be stored. -/
def store (t : FileTree) (output : Path) (pageId : String) (out : Output) :
    FileTree × Option FileError :=
  match t.makeFolders output.parent with
  | .error e => (t, some e)
  | .ok made =>
    match made.write output out.html with
    | .error e => (made, some e)
    | .ok stored =>
      let record := Sidecar.ofOutput pageId output.name out
      match stored.write (Sidecar.path output pageId) record.text with
      | .error e => (stored, some e)
      | .ok recorded => (recorded, none)

/-- What a compilation prints. -/
def compileLines (home : Place) (output : Path) (pageId : String) (out : Output) : List String :=
  ([output, Sidecar.path output pageId].map fun p => "wrote " ++ shown home p) ++
    out.warnings.map fun w => warningLine w.message

/-- What an inspection prints. -/
def validateLines (html : List Char) (performance : Bool) : List String :=
  let findings := inspect html
  let report := LoadReport.ofDocument html
  (if findings.isEmpty then ["no warnings"] else findings.map fun f => warningLine f.message) ++
    if performance then
      ("size: " ++ toString report.size ++ " bytes, css: " ++ toString report.styleSize ++
        ", scripts: " ++ toString report.scriptSize ++ ", images: " ++
        toString report.imageCount ++ ", estimated load: ~" ++ toString report.seconds ++ "s") ::
        report.recommendations.map fun r => "- " ++ r.message
    else []

/-- Runs a command. -/
def run (t : FileTree) (env : Environment) (clock : ClockReading) : Command → Outcome
  | compile r =>
    match compilePage t env clock r with
    | .error e => { files := t, failure := some e }
    | .ok (page, out) =>
      match store t r.output page.id out with
      | (files, some e) => { files, failure := some (.file e) }
      | (files, none) => { files, printed := compileLines t.home r.output page.id out }
  | validate path performance =>
    match t.read path with
    | .error e => { files := t, failure := some (.file e) }
    | .ok html => { files := t, printed := validateLines html performance }

end Command

end PagePress
