import PagePress.Document
import PagePress.Inspect
import PagePress.Instant
import PagePress.Reduce
import PagePress.Render.Section
import PagePress.Stylesheet.Page
import PagePress.Vendor

/-!
Compilation of a page into one self-contained document, with what an inspection of the document
finds and a record of how it came about.
-/

namespace PagePress

/-- How a page is to be compiled. -/
structure Options where
  minify : Bool := true
  /-- The stylesheet goes into the document. It always does; a wish for another place is
  answered with a warning. -/
  inlineCss : Bool := true
  analytics : Bool := false
  adsense : Bool := false
  form : FormChoice := .backend .customEndpoint
  animations : Bool := true
  deriving DecidableEq, Repr, Inhabited

/-- What the author of a page should know about its document. -/
inductive Warning where
  | externalStyles
  | finding (f : Finding)
  deriving DecidableEq, Repr

def Warning.message : Warning → String
  | externalStyles => "External stylesheets are not supported; CSS was embedded inline instead"
  | finding f => f.message

/-- Why a page could not be compiled. -/
inductive CompileError where
  | unknownBackend (e : UnknownBackend)
  | instantOutOfRange
  deriving DecidableEq, Repr

namespace CompileError

/-- What went wrong. -/
def cause : CompileError → String
  | unknownBackend e => e.message
  | instantOutOfRange => "date value out of range"

def message (e : CompileError) : String := "Page generation failed: " ++ e.cause

end CompileError

/-- A step of a compilation that is reported. -/
inductive Event where
  | skipped (section_ kind : String)
  | rendered (page : String) (body css script : Nat)
  | found (page : String) (count : Nat)
  | compiled (page : String) (size : Nat)
  deriving DecidableEq, Repr

def Event.message : Event → String
  | skipped id kind => "skipping section " ++ id ++ " of unknown kind " ++ Text.quoted kind
  | rendered page body css script =>
    "rendered " ++ page ++ ": body=" ++ toString body ++ " css=" ++ toString css ++ " script=" ++
      toString script ++ " chars"
  | found page count => page ++ ": " ++ toString count ++ " validation warning(s)"
  | compiled page size => "compiled " ++ page ++ " (" ++ toString size ++ " bytes)"

/-- A compiled page. -/
structure Output where
  html : List Char
  /-- The size of the document in bytes. -/
  size : Nat
  warnings : List Warning
  generatedAt : String
  checksum : List Char
  deriving DecidableEq, Repr

namespace Compile

/-- The context of a page's sections, which are given in order. -/
def context (o : Options) (clock : ClockReading) (p : Page) (sections : List Section) :
    Render.Context :=
  .ofSections p.id (epochMillis clock) o.form o.animations sections

/-- The parts of a page's document. -/
def parts (v : Vendors) (o : Options) (clock : ClockReading) (p : Page) :
    Except UnknownBackend DocumentParts := do
  let sections := Section.inOrder p.sections
  let script ← Script.page o.form sections
  let snippets := Snippets.render v o.analytics o.adsense
  return {
    body := Render.body (context o clock p sections) sections
    css := Stylesheet.pageText p.theme o.animations
    script
    headSnippets := snippets.head
    bodySnippets := snippets.body }

/-- The document of a page, reduced if that is wanted. -/
def html (o : Options) (p : Page) (parts : DocumentParts) : List Char :=
  let whole := Document.assemble (.ofPage p) parts
  if o.minify then reduce whole else whole

/-- The warnings about a document. -/
def warnings (o : Options) (html : List Char) : List Warning :=
  (if o.inlineCss then [] else [.externalStyles]) ++ (inspect html).map .finding

/-- The sections that are not shown. -/
def skipped (sections : List Section) : List Event :=
  sections.filterMap fun s =>
    match s.block with
    | .unknown kind _ => some (.skipped s.id kind)
    | _ => none

end Compile

open Compile in
/-- Compiles a page at the instant that a clock shows. -/
def compile (v : Vendors) (o : Options) (clock : ClockReading) (p : Page) :
    Except CompileError Output := do
  let parts ← (parts v o clock p).mapError .unknownBackend
  let html := html o p parts
  let some generatedAt := isoTimestamp? clock | throw .instantOutOfRange
  return {
    html
    size := Text.byteSize html
    warnings := warnings o html
    generatedAt
    checksum := Checksum.checksum html }

open Compile in
/-- The steps of a successful compilation in order. -/
def events (v : Vendors) (o : Options) (clock : ClockReading) (p : Page) (out : Output) :
    List Event :=
  let found := out.warnings.countP (· != .externalStyles)
  skipped (Section.inOrder p.sections) ++
    (match parts v o clock p with
      | .ok parts => [.rendered p.id parts.body.length parts.css.length parts.script.length]
      | .error _ => []) ++
    (if found = 0 then [] else [.found p.id found]) ++ [.compiled p.id out.size]

end PagePress
