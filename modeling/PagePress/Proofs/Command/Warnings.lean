import PagePress.Proofs.Command
import PagePress.Proofs.Compile.Newlines

/-!
The warnings about a stored document. An inspection reads the document with newlines of one kind, so it
prints what is found in that text; this is what the compilation warned of, unless the carriage returns
of the page count in the size of the document (`validate_of_compile`).
-/

namespace PagePress.Command

open FileTree Markup

/-- The lines that an inspection prints about some findings. -/
def messageLines (messages : List String) : List String :=
  if messages.isEmpty then ["no warnings"] else messages.map warningLine

theorem validateLines_eq (html : List Char) :
    validateLines html false = messageLines ((inspect html).map Finding.message) := by
  simp [validateLines, messageLines, Function.comp_def]

/-- All warnings of a request are findings. -/
theorem messages_of_compile {v : Vendors} {r : CompileRequest} {backend : FormBackend} {clock : ClockReading}
    {page : Page} {out : Output} (h : PagePress.compile v (optionsOf r backend) clock page = .ok out) :
    out.warnings.map Warning.message = (inspect out.html).map Finding.message := by
  obtain ⟨script, -, -, hwarnings⟩ := compile_eq h
  rw [hwarnings, Compile.warnings]
  simp [optionsOf, Function.comp_def, Warning.message]

theorem run_validate {t : FileTree} {p : Path} {html : List Char} (h : t.read p = .ok html)
    (env : Environment) (clock : ClockReading) :
    run t env clock (.validate p false) = { files := t, printed := validateLines html false } := by
  simp only [run, h]

/-- Inspecting the file of a compiled document prints the warnings of the compilation, which its record
tells as well, if the document holds no carriage return, or if it is made of safe values and either
reduced or of a size that is found to be the same with newlines of one kind. -/
theorem validate_of_compile {t : FileTree} {env : Environment} {clock : ClockReading} {r : CompileRequest}
    {page : Page} {out : Output} (env' : Environment) (clock' : ClockReading)
    (hcompile : compilePage t env clock r = .ok (page, out))
    (hrun : (run t env clock (.compile r)).failure = none)
    (hplaces : (run t env clock (.compile r)).files.locate r.output ≠
      (run t env clock (.compile r)).files.locate (Sidecar.path r.output page.id)) :
    let o := run t env clock (.compile r)
    let messages := out.warnings.map Warning.message
    o.printed = ([r.output, Sidecar.path r.output page.id].map fun p => "wrote " ++ shown t.home p) ++
        messages.map warningLine ∧
      (∃ record text, o.files.locate (Sidecar.path r.output page.id) = .ok record ∧
        o.files.textAt? record = some text ∧
        Sidecar.Tells text page.id r.output.name out.html messages) ∧
      ∃ lines, run o.files env' clock' (.validate r.output false) = { files := o.files, printed := lines } ∧
        lines = messageLines ((inspect (Text.unifyNewlines out.html)).map Finding.message) ∧
        ('\r' ∉ out.html ∨ SafeValues page ∧ (r.minify = true ∨
            Inspect.oversize (Text.unifyNewlines out.html) = Inspect.oversize out.html) →
          lines = messageLines messages) := by
  intro o messages
  obtain ⟨vendors, backend, hout⟩ := compilePage_ok hcompile
  rcases run_compile_cases t env clock r with ⟨e, hfailure, -⟩ |
    ⟨-, page', out', document, record, hcompile', hstores, hprinted⟩
  · exact absurd (hrun.symm.trans hfailure) nofun
  · obtain ⟨rfl, rfl⟩ := Prod.mk.inj (Except.ok.inj (hcompile.symm.trans hcompile'))
    obtain ⟨text, htext, htells⟩ := hstores.record_text
    have hne : document ≠ record := by
      rintro rfl
      exact hplaces (hstores.document_located.trans hstores.record_located.symm)
    have hread := read_of_textAt? hstores.document_located (hstores.document_text hne)
    refine ⟨?_, ⟨record, text, hstores.record_located, htext, htells⟩, _, run_validate hread env' clock',
      validateLines_eq _, fun hsame => ?_⟩
    · rw [hprinted, compileLines, List.map_map]
      rfl
    · have hinspect : inspect (Text.unifyNewlines out.html) = inspect out.html := by
        rcases hsame with hreturn | ⟨hp, hminify | hsize⟩
        · rw [Text.unifyNewlines_of_not_mem hreturn]
        · rw [unifyNewlines_of_compile (o := optionsOf r backend) hp hminify hout]
        · exact inspect_unifyNewlines_of_compile hp hout hsize
      rw [validateLines_eq, hinspect, ← messages_of_compile hout]

/-! ### A stored page -/

/-- A folder with a page whose title and text hold carriage returns. -/
def shopFiles : FileTree where
  home := ["shop".toList]
  entries := [(["shop".toList, "tea".toList], .file
    (r#"{"id": "tea", "title": "Green\r\ntea", "sections": "# ++
      r#"[{"id": "s", "type": "content", "order": 1, "data": {"content": "a\rb"}}]}"#).toList)]

def shopRequest : CompileRequest where
  page := .ofText "tea".toList
  output := .ofText "site/tea.html".toList
  config := .ofText "settings".toList

theorem load_shopRequest : ∃ page, Page.load shopFiles shopRequest.page = .ok page ∧ SafeValues page ∧
    page.id = "tea" ∧ '\r' ∈ page.title.toList := by
  have hload : (match Page.load shopFiles shopRequest.page with
      | .ok page => decide (SafeValues page ∧ page.id = "tea" ∧ '\r' ∈ page.title.toList)
      | .error _ => false) = true := by
    decide +kernel
  split at hload
  · rename_i page heq
    exact ⟨page, heq, of_decide_eq_true hload⟩
  · cases hload

/-- The warnings about this page are the same when its document is inspected. -/
theorem validate_of_shopRequest : ∃ page out,
    compilePage shopFiles [] sampleClock shopRequest = .ok (page, out) ∧
      SafeValues page ∧ '\r' ∈ page.title.toList ∧
      let o := run shopFiles [] sampleClock (.compile shopRequest)
      o.failure = none ∧
        o.files.locate shopRequest.output ≠ o.files.locate (Sidecar.path shopRequest.output page.id) ∧
        (run o.files [] sampleClock (.validate shopRequest.output false)).printed =
          messageLines (out.warnings.map Warning.message) := by
  obtain ⟨page, hpage, hsafe, hid, htitle⟩ := load_shopRequest
  have hbackend : FormBackend.parse shopRequest.formService = .ok .customEndpoint := rfl
  have hvendors : Settings.load shopFiles [] shopRequest.config none none = .ok {} := rfl
  obtain ⟨out, hcompile⟩ := exists_compilePage hpage hbackend hvendors sampleClock_inRange
  have hrun : (run shopFiles [] sampleClock (.compile shopRequest)).failure = none := by
    refine run_compile_of_store hcompile ?_
    rw [hid]
    rfl
  have hplaces : (run shopFiles [] sampleClock (.compile shopRequest)).files.locate shopRequest.output ≠
      (run shopFiles [] sampleClock (.compile shopRequest)).files.locate
        (Sidecar.path shopRequest.output page.id) := by
    rcases run_compile_cases shopFiles [] sampleClock shopRequest with ⟨e, hfailure, -⟩ |
      ⟨-, page', out', document, record, hcompile', hstores, -⟩
    · exact absurd (hrun.symm.trans hfailure) nofun
    · obtain ⟨rfl, rfl⟩ := Prod.mk.inj (Except.ok.inj (hcompile.symm.trans hcompile'))
      exact hstores.locate_ne (by rw [hid]; decide) (by rw [hid]; decide)
  refine ⟨page, out, hcompile, hsafe, htitle, hrun, hplaces, ?_⟩
  obtain ⟨-, -, lines, hvalidate, -, hlines⟩ :=
    validate_of_compile [] sampleClock hcompile hrun hplaces
  rw [hvalidate]
  exact hlines (.inr ⟨hsafe, .inl rfl⟩)

end PagePress.Command
