import PagePress.Command
import PagePress.Proofs.Compile
import PagePress.Proofs.Sidecar

/-!
What a compilation leaves behind. Nothing is stored before the page is compiled, so a run that stops
earlier changes no file; a run that ends well stores the document and its record and changes no other
file. The record is stored last, and it stands beside the document if the id of the page makes one
name; where no record can be stored, the document is left without one (`files_of_compile`).
-/

namespace PagePress

open FileTree

/-- Why no record of a page can be stored beside a document: the id of the page holds a mark that no
name holds, the name or the path is too long, or a folder has the place. -/
def Sidecar.Refused (t : FileTree) (output : Path) (pageId : String) : Prop :=
  '/' ∈ pageId.toList ∨ '\x00' ∈ pageId.toList ∨
    nameLimit < Text.byteSize (Sidecar.fileName pageId) ∨
    pathLimit < Text.byteSize (Sidecar.path output pageId).text ∨
    t.look (Sidecar.path output pageId) = .ok .folder

theorem Sidecar.locate_path {t : FileTree} {output : Path} {pageId : String} {folder record : Place}
    (hslash : '/' ∉ pageId.toList) (hfolder : t.locate output.parent = .ok folder)
    (hrecord : t.locate (Sidecar.path output pageId) = .ok record) :
    record = folder ++ [Sidecar.fileName pageId] := by
  rw [Sidecar.path_eq_entry hslash] at hrecord
  have hstep := step_of_locate_entry hfolder hrecord
  exact ((step_eq_ok (Sidecar.fileName_ne (by decide) pageId)).1 hstep).2

/-- A record that is not refused can be stored. -/
theorem Sidecar.exists_locate_path {t : FileTree} {output : Path} {pageId : String} {folder : Place}
    (hlocate : t.locate output.parent = .ok folder) (hfolder : t.entryAt? folder = some .folder)
    (h : ¬ Sidecar.Refused t output pageId) :
    t.locate (Sidecar.path output pageId) = .ok (folder ++ [Sidecar.fileName pageId]) ∧
      t.look (Sidecar.path output pageId) ≠ .ok .folder := by
  simp only [Sidecar.Refused, not_or, Nat.not_lt] at h
  obtain ⟨hslash, hnul, hname, hpath, hlook⟩ := h
  refine ⟨?_, hlook⟩
  rw [Sidecar.path_eq_entry hslash] at hpath ⊢
  obtain ⟨hcheck, hfollow⟩ := locate_eq_ok.1 hlocate
  refine locate_entry.2 ⟨check_eq_ok.2 ⟨fun part hpart => ?_, hpath⟩, folder, hfollow, hfolder,
    (step_eq_ok (Sidecar.fileName_ne (by decide) pageId)).2 ⟨hname, rfl⟩⟩
  rcases List.mem_append.1 hpart with hpart | hpart
  · exact (check_eq_ok.1 hcheck).1 part hpart
  · rw [List.mem_singleton.1 hpart, Sidecar.mem_fileName]
    exact not_or.2 ⟨by decide, not_or.2 ⟨hnul, by decide⟩⟩

namespace Command

/-! ### Storing -/

/-- A document was stored in a folder and nothing else has changed. -/
structure StoresDocument (t files : FileTree) (output : Path) (html : List Char) (folder document : Place) :
    Prop where
  folder_located : files.locate output.parent = .ok folder
  isFolder : files.entryAt? folder = some .folder
  located : files.locate output = .ok document
  step_eq : step folder output.name = .ok document
  text_eq : files.textAt? document = some html
  others : SameBut [document] t files

/-- A document and its record were stored and nothing else has changed. -/
structure Stores (t files : FileTree) (output : Path) (pageId : String) (out : Output)
    (document record : Place) : Prop where
  document_located : files.locate output = .ok document
  record_located : files.locate (Sidecar.path output pageId) = .ok record
  document_text : document ≠ record → files.textAt? document = some out.html
  record_text : ∃ text, files.textAt? record = some text ∧
    Sidecar.Tells text pageId output.name out.html (out.warnings.map Warning.message)
  /-- An id without a slash has its record in the folder of the document, and the two are different
  files if they have different names. -/
  beside : '/' ∉ pageId.toList → ∃ folder, files.locate output.parent = .ok folder ∧
    step folder output.name = .ok document ∧ record = folder ++ [Sidecar.fileName pageId] ∧
    (document = record ↔ output.name = Sidecar.fileName pageId)
  others : SameBut [document, record] t files

theorem storesDocument {t made stored : FileTree} {output : Path} {html : List Char}
    (hmade : t.makeFolders output.parent = .ok made) (hstored : made.write output html = .ok stored) :
    ∃ folder document, StoresDocument t stored output html folder document := by
  obtain ⟨-, hsame, folder, hlocate, hfolder⟩ := makeFolders_ok hmade
  obtain ⟨document, hdocument, hfile, hwrote⟩ := write_ok hstored
  have hparts : output.parts ≠ [] := by
    intro hnil
    rw [Path.parent_of_nil hnil, hdocument] at hlocate
    obtain rfl := Except.ok.inj hlocate
    exact hfile hfolder
  have hstep : step folder output.name = .ok document := by
    rw [← Path.entry_parent_name hparts] at hdocument
    exact step_of_locate_entry hlocate hdocument
  exact ⟨folder, document, hwrote.keeps.locate hlocate, hwrote.keeps.folder folder hfolder,
    hwrote.keeps.locate hdocument, hstep, hwrote.text_eq, hsame.trans hwrote.others⟩

/-- Storing stops before any file is written, or it stores the document and then the record decides. -/
theorem store_cases (t : FileTree) (output : Path) (pageId : String) (out : Output) :
    (∃ files e, store t output pageId out = (files, some e) ∧ SameBut [] t files) ∨
      ∃ stored folder document, StoresDocument t stored output out.html folder document ∧
        let written := stored.write (Sidecar.path output pageId)
          (Sidecar.ofOutput pageId output.name out).text
        ((∃ e, written = .error e ∧ store t output pageId out = (stored, some e)) ∨
          ∃ files, written = .ok files ∧ store t output pageId out = (files, none)) := by
  unfold store
  cases hmade : t.makeFolders output.parent with
  | error e => exact .inl ⟨t, e, rfl, .refl t⟩
  | ok made =>
    cases hstored : made.write output out.html with
    | error e => exact .inl ⟨made, e, by simp only [hstored], (makeFolders_ok hmade).2.1⟩
    | ok stored =>
      obtain ⟨folder, document, hdocument⟩ := storesDocument hmade hstored
      refine .inr ⟨stored, folder, document, hdocument, ?_⟩
      cases hwritten : stored.write (Sidecar.path output pageId)
          (Sidecar.ofOutput pageId output.name out).text with
      | error e => exact .inl ⟨e, rfl, by simp only [hstored, hwritten]⟩
      | ok files => exact .inr ⟨files, rfl, by simp only [hstored, hwritten]⟩

/-- A record that cannot be stored beside its document is refused. -/
theorem StoresDocument.refused {t stored : FileTree} {output : Path} {html record : List Char}
    {folder document : Place} (h : StoresDocument t stored output html folder document) {pageId : String}
    {e : FileError} (hrecord : stored.write (Sidecar.path output pageId) record = .error e) :
    Sidecar.Refused stored output pageId := by
  by_contra hrefused
  obtain ⟨hplace, hlook⟩ := Sidecar.exists_locate_path h.folder_located h.isFolder hrefused
  rcases write_error hrecord with hnone | hfolder
  · rw [hplace] at hnone
    cases hnone
  · exact hlook hfolder

theorem StoresDocument.stores {t stored files : FileTree} {output : Path} {pageId : String} {out : Output}
    {folder document : Place} (h : StoresDocument t stored output out.html folder document)
    (hsize : out.size = Text.byteSize out.html) (hchecksum : out.checksum = Checksum.checksum out.html)
    (hrecord : stored.write (Sidecar.path output pageId)
      (Sidecar.ofOutput pageId output.name out).text = .ok files) :
    ∃ record, Stores t files output pageId out document record := by
  obtain ⟨record, hplace, -, hwrote⟩ := write_ok hrecord
  refine ⟨record, hwrote.keeps.locate h.located, hwrote.keeps.locate hplace, fun hne => ?_,
    ⟨_, hwrote.text_eq, Sidecar.tells_ofOutput hsize hchecksum pageId output.name⟩,
    fun hslash => ?_, h.others.trans hwrote.others⟩
  · rw [hwrote.others document (by simpa using hne), h.text_eq]
  · obtain rfl := Sidecar.locate_path hslash h.folder_located hplace
    refine ⟨folder, hwrote.keeps.locate h.folder_located, h.step_eq, rfl, ?_⟩
    have hrecord := step_of_locate_entry h.folder_located (Sidecar.path_eq_entry hslash output ▸ hplace)
    exact ⟨fun hsame => eq_of_step (hsame ▸ h.step_eq), fun hname =>
      Except.ok.inj (h.step_eq.symm.trans (hname ▸ hrecord))⟩

theorem Stores.locate_ne {t files : FileTree} {output : Path} {pageId : String} {out : Output}
    {document record : Place} (h : Stores t files output pageId out document record)
    (hslash : '/' ∉ pageId.toList) (hname : output.name ≠ Sidecar.fileName pageId) :
    files.locate output ≠ files.locate (Sidecar.path output pageId) := by
  obtain ⟨-, -, -, -, hsame⟩ := h.beside hslash
  rw [h.document_located, h.record_located]
  exact fun heq => hname (hsame.1 (Except.ok.inj heq))

/-! ### Compiling -/

/-- How a request asks for a page to be compiled. -/
def optionsOf (r : CompileRequest) (backend : FormBackend) : Options :=
  { minify := r.minify, analytics := r.analytics, adsense := r.adsense,
    form := .backend backend, animations := r.animations }

theorem eq_ok_of_mapError {ε ε' α : Type} {f : ε → ε'} {x : Except ε α} {a : α} (h : x.mapError f = .ok a) :
    x = .ok a := by
  cases x with
  | error e => simp [Except.mapError] at h
  | ok b => simpa [Except.mapError] using h

theorem compilePage_ok {t : FileTree} {env : Environment} {clock : ClockReading} {r : CompileRequest}
    {page : Page} {out : Output} (h : compilePage t env clock r = .ok (page, out)) :
    ∃ vendors backend, PagePress.compile vendors (optionsOf r backend) clock page = .ok out := by
  obtain ⟨page', -, h⟩ := Script.exists_of_bind_eq_ok h
  obtain ⟨backend, -, h⟩ := Script.exists_of_bind_eq_ok h
  obtain ⟨vendors, -, h⟩ := Script.exists_of_bind_eq_ok h
  obtain ⟨out', hout, h⟩ := Script.exists_of_bind_eq_ok h
  obtain ⟨rfl, rfl⟩ := Prod.mk.inj (Except.ok.inj h)
  exact ⟨vendors, backend, eq_ok_of_mapError hout⟩

/-- With a page, a form backend and settings that can be read, and a clock in range, there is
something to store. -/
theorem exists_compilePage {t : FileTree} {env : Environment} {clock : ClockReading} {r : CompileRequest}
    {page : Page} {backend : FormBackend} {vendors : Vendors} (hpage : Page.load t r.page = .ok page)
    (hbackend : FormBackend.parse r.formService = .ok backend)
    (hvendors : Settings.load t env r.config none none = .ok vendors)
    (hclock : (isoTimestamp? clock).isSome = true) :
    ∃ out, compilePage t env clock r = .ok (page, out) := by
  have hresolve : (optionsOf r backend).form.resolve = .ok backend := rfl
  obtain ⟨out, hout⟩ := Markup.exists_compile (v := vendors) (p := page) hresolve hclock
  refine ⟨out, ?_⟩
  simp only [optionsOf] at hout
  simp [compilePage, hpage, hbackend, hvendors, hout, Except.mapError, bind, Except.bind, pure, Except.pure]

/-- A compilation that can store what it has compiled ends well. -/
theorem run_compile_of_store {t : FileTree} {env : Environment} {clock : ClockReading} {r : CompileRequest}
    {page : Page} {out : Output} (hcompile : compilePage t env clock r = .ok (page, out))
    (hstore : (store t r.output page.id out).2 = none) : (run t env clock (.compile r)).failure = none := by
  rw [run, hcompile]
  dsimp only
  split
  · rename_i files e heq
    rw [heq] at hstore
    cases hstore
  · rfl

/-- How a compilation ends: it stops, with the files as they were or with a document whose record is
refused, or it stores the document and its record. -/
theorem run_compile_cases (t : FileTree) (env : Environment) (clock : ClockReading) (r : CompileRequest) :
    let o := run t env clock (.compile r)
    (∃ e, o.failure = some e ∧ (SameBut [] t o.files ∨
      ∃ page out folder document, compilePage t env clock r = .ok (page, out) ∧
        StoresDocument t o.files r.output out.html folder document ∧
        Sidecar.Refused o.files r.output page.id)) ∨
    (o.failure = none ∧ ∃ page out document record, compilePage t env clock r = .ok (page, out) ∧
      Stores t o.files r.output page.id out document record ∧
      o.printed = compileLines t.home r.output page.id out) := by
  intro o
  cases hcompile : compilePage t env clock r with
  | error e =>
    have ho : o = { files := t, failure := some e } := by simp only [o, run, hcompile]
    rw [ho]
    exact .inl ⟨e, rfl, .inl (.refl t)⟩
  | ok compiled =>
    obtain ⟨page, out⟩ := compiled
    obtain ⟨vendors, backend, hout⟩ := compilePage_ok hcompile
    obtain ⟨hsize, hchecksum⟩ := Markup.measures_of_compile hout
    have hfails : ∀ files e, store t r.output page.id out = (files, some e) →
        o = { files, failure := some (.file e) } := by
      intro files e hstore
      simp only [o, run, hcompile, hstore]
    rcases store_cases t r.output page.id out with ⟨files, e, hstore, hsame⟩ |
      ⟨stored, folder, document, hdocument, ⟨e, hwritten, hstore⟩ | ⟨files, hwritten, hstore⟩⟩
    · rw [hfails files e hstore]
      exact .inl ⟨_, rfl, .inl hsame⟩
    · rw [hfails stored e hstore]
      exact .inl ⟨_, rfl, .inr ⟨page, out, folder, document, rfl, hdocument, hdocument.refused hwritten⟩⟩
    · have ho : o = { files, printed := compileLines t.home r.output page.id out } := by
        simp only [o, run, hcompile, hstore]
      rw [ho]
      obtain ⟨record, hstores⟩ := hdocument.stores hsize hchecksum hwritten
      exact .inr ⟨rfl, page, out, document, record, rfl, hstores, rfl⟩

/-- A compilation that stops changes no file, but for a document whose record is refused; one that ends
well stores the document and its record and changes no other file. -/
theorem files_of_compile (t : FileTree) (env : Environment) (clock : ClockReading) (r : CompileRequest) :
    let o := run t env clock (.compile r)
    (∀ e, o.failure = some e → SameBut [] t o.files ∨
      ∃ page out folder document, compilePage t env clock r = .ok (page, out) ∧
        StoresDocument t o.files r.output out.html folder document ∧
        Sidecar.Refused o.files r.output page.id) ∧
    (o.failure = none → ∃ page out document record, compilePage t env clock r = .ok (page, out) ∧
      Stores t o.files r.output page.id out document record) := by
  intro o
  rcases run_compile_cases t env clock r with ⟨e, hfailure, hfiles⟩ |
    ⟨hfailure, page, out, document, record, hcompile, hstores, -⟩
  · exact ⟨fun _ _ => hfiles, fun hnone => absurd (hfailure.symm.trans hnone) nofun⟩
  · exact ⟨fun _ hsome => absurd (hfailure.symm.trans hsome) nofun,
      fun _ => ⟨page, out, document, record, hcompile, hstores⟩⟩

end Command

end PagePress
