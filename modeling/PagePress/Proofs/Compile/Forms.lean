import PagePress.Proofs.Inspect.Required
import PagePress.Proofs.Markup.Reader
import PagePress.Proofs.Render.Attributes
import PagePress.Proofs.Render.Seen
import PagePress.Proofs.Script.Lookup

/-!
Forms and the scripts that look them up. The id of a form is written twice, as the value of an
attribute and as a string literal. The reduction tidies the one and leaves the other alone, so a
reduced document has the element that a script looks up just when the id of the section is tidy
(`lookups_of_compile`).
-/

namespace PagePress.Markup

open Text Html Render Document

/-! ### Ids -/

/-- The id among the attributes of a tag, as a reader understands it. -/
def idOf? (attrs : List Attr) : Option (List Char) :=
  (attrs.find? fun a => a.name == "id".toList).bind fun a => a.value.map decode

theorem idOf?_eq (attrs : List Attr) : idOf? attrs = valueOf? "id" attrs := rfl

/-- The ids of the elements of a name that a reader finds in a document. -/
def ids (name : String) (html : List Char) : List (List Char) :=
  (attrsOf name.toList (read html)).filterMap idOf?

/-- An id is an escaped text. -/
def IdEscaped (a : Attribute) : Prop :=
  a.name = "id" → ∀ v, (attrOf a).value = some v → ∃ s, v = escape s

theorem idEscaped_of_ne {a : Attribute} (h : a.name ≠ "id") : IdEscaped a := fun h' => absurd h' h

/-- Every id in the layout is an escaped text, whatever the raw values are. -/
theorem admits_idEscaped : Admits IdEscaped fun _ => True where
  bare name _ v hv := by cases hv
  escaped name value _ v hv := by
    obtain rfl := Option.some.inj hv
    exact ⟨value.toList, by simp [Piece.textAll, Piece.text]⟩
  fixed hname _ := idEscaped_of_ne hname
  style _ _ := idEscaped_of_ne (show "style" ≠ "id" by decide)
  button _ := idEscaped_of_ne (show "style" ≠ "id" by decide)
  image _ := idEscaped_of_ne (show "style" ≠ "id" by decide)
  inputId {form suffix} h _ v hv := by
    obtain rfl := Option.some.inj hv
    refine ⟨form.toList ++ suffix.toList, ?_⟩
    have happend : escape (form.toList ++ suffix.toList) = escape form.toList ++ suffix.toList := by
      rw [escape, List.flatMap_append]
      exact congrArg _ h
    rw [happend]
    simp [Piece.textAll, Piece.text]

theorem reduced?_escaped {n s : List Char} (hn : n ≠ "alt".toList) {b : Attr}
    (h : Attr.reduced? ⟨n, some (escape s)⟩ = some b) : b = ⟨n, some (tidy (escape s))⟩ := by
  have h1 : '"' ∉ escape s := fun hm => absurd (escape_marks _ hm).1 (by decide)
  have h2 : '\'' ∉ escape s := fun hm => (escape_marks _ hm).2 rfl
  by_cases htidy : tidy (escape s) = []
  · rw [Attr.reduced?_empty hn htidy] at h
    cases h
  · rw [Attr.reduced?_value h1 h2 htidy] at h
    exact (Option.some.inj h).symm

/-- The hints of an image are no ids. -/
theorem mem_of_mem_hinting {n : List Char} {attrs : List Attr} {b : Attr} (h : b ∈ hinting.attrs n attrs)
    (hname : b.name = "id".toList) : b ∈ attrs := by
  obtain ⟨hints, hhints, hsub, -⟩ := exists_hinted n attrs
  rw [hhints] at h
  rcases List.mem_append.1 h with h | h
  · exact h
  · have h := hsub.subset h
    simp only [List.mem_cons, List.not_mem_nil, or_false] at h
    rcases h with rfl | rfl <;> exact absurd hname (by decide)

/-- The value of a reduced id is a tidied text, escaped. -/
theorem exists_value_of_reduced? {a : Attribute} (h : IdEscaped a) {b : Attr}
    (hb : (attrOf a).reduced? = some b) (hname : b.name = "id".toList) {v : List Char}
    (hv : b.value = some v) : ∃ s, v = tidy (escape s) := by
  have haname : a.name = "id" := by
    have : b.name = a.name.toList := Attr.emptied?_name hb
    exact String.toList_inj.1 (this.symm.trans hname)
  cases hav : (attrOf a).value with
  | none =>
    simp only [Attr.reduced?, Attr.mapValue, hav, Attr.emptied?, Option.map_none, Option.some.injEq] at hb
    rw [← hb] at hv
    cases hv
  | some w =>
    obtain ⟨s, rfl⟩ := h haname w hav
    have hattr : attrOf a = ⟨"id".toList, some (escape s)⟩ := by
      rw [← hav, ← haname]
      rfl
    rw [hattr] at hb
    obtain rfl := reduced?_escaped (by decide) hb
    exact ⟨s, (Option.some.inj hv).symm⟩

/-- An id that a reader finds in a reduced tag is tidy. -/
theorem tidy_of_idOf? {as : List Attribute} (h : ∀ a ∈ as, IdEscaped a) {n v : List Char}
    (hv : idOf? (hinting.attrs n ((as.map attrOf).filterMap Attr.reduced?)) = some v) : tidy v = v := by
  obtain ⟨b, hb, hvalue⟩ := Option.bind_eq_some_iff.1 hv
  obtain ⟨u, hu, rfl⟩ := Option.map_eq_some_iff.1 hvalue
  have hname : b.name = "id".toList := by simpa using List.find?_some hb
  have hmem := mem_of_mem_hinting (List.mem_of_find?_eq_some hb) hname
  obtain ⟨c, hc, hreduced⟩ := List.mem_filterMap.1 hmem
  obtain ⟨a, ha, rfl⟩ := List.mem_map.1 hc
  obtain ⟨s, rfl⟩ := exists_value_of_reduced? (h a ha) hreduced hname hu
  rw [decode_tidy_escape, tidy_tidy]

theorem idOf?_escaped (s : String) (as : List Attribute) :
    idOf? ((Attribute.escaped "id" s :: as).map attrOf) = some s.toList := by
  rw [List.map_cons, attrOf_escaped, idOf?_eq, valueOf?_cons_of_eq rfl rfl, decode_escape]

theorem idOf?_reduced {s : String} (hne : s ≠ "") (hs : tidy s.toList = s.toList) {n : List Char}
    (hn : n ≠ "img".toList) (as : List Attribute) :
    idOf? (hinting.attrs n (((Attribute.escaped "id" s :: as).map attrOf).filterMap Attr.reduced?)) =
      some s.toList := by
  have hseen := seenValue?_escaped (m := true) (n := "id") (by decide) s as
  have hnil : ¬ (true = true ∧ tidy s.toList = []) := by
    rw [hs]
    exact fun h => hne (String.toList_inj.1 h.2)
  rw [if_neg hnil, seen, if_pos rfl, hs] at hseen
  simp only [hinting, if_neg hn, idOf?_eq]
  exact hseen

/-! ### Forms of a page -/

theorem node?_of_form? {c : Context} {s : Section} {a : CallToAction} (h : s.form? = some a) :
    node? c s = some (callToAction s.id a c) ∧ a.formEnabled = true := by
  unfold Section.form? at h
  split at h
  · rename_i b hb
    split at h
    · obtain rfl := Option.some.inj h
      exact ⟨by simp [node?, hb], by assumption⟩
    · cases h
  · cases h

/-- A section with a form has the form, and the place where it reports, with their ids. -/
theorem form_mem_callToAction (id : String) {a : CallToAction} (c : Context) (ha : a.formEnabled = true) :
    ∃ as as', .escaped "id" (formId id) :: as ∈ nodeAttrs "form" (callToAction id a c) ∧
      .escaped "id" (messageId id) :: as' ∈ nodeAttrs "div" (callToAction id a c) := by
  refine ⟨[.fixed "class" "form-container", .fixed "method" "post",
    .escaped "data-form-handler" c.form.name, .escaped "data-page-id" c.pageIdentifier,
    .escaped "data-recipient-email" a.recipientEmail],
    [.fixed "class" "form-message", .fixed "role" "status", .fixed "aria-live" "polite",
      .fixed "style" "display: none;"], ?_, ?_⟩
  · simp +decide [callToAction, container, nodeAttrs, form, ha]
  · simp +decide [callToAction, container, nodeAttrs, form, ha]

/-! ### Documents with forms -/

theorem treeAttrs_body_subset (n : String) (o : Outline) : treeAttrs n o.body ⊆ treeAttrs n o.nodes := by
  intro attrs h
  have hbody : attrs ∈ treeAttrs n o.bodyNodes := by simp [Outline.bodyNodes, h]
  simp +decide [Outline.nodes, Outline.children, nodeAttrs, hbody]

/-- The script of a document as a reader finds it. -/
def scriptElement (script : List Char) : Element := ⟨"script".toList, [], '\n' :: (script ++ "\n  ".toList)⟩

theorem scriptElement_mem {o : Outline} (h : o.script ≠ []) :
    .sealed (scriptElement o.script) ∈ o.document.map Span.tag := by
  have hcontent : Node.textAll [.line 0, .raw (.ofList o.script), .line 2] =
      '\n' :: (o.script ++ "\n  ".toList) := by
    simp [Node.textAll, Node.line, Node.fixed, Node.raw, Node.text, Piece.text]
  have hscript : .tag (.sealed (scriptElement o.script)) ∈ treeParts o.scriptNodes := by
    have hempty : o.script.isEmpty = false := by simpa using h
    have hname : "script".toList ∈ sealedNames := by decide
    simp only [Outline.scriptNodes, hempty, Bool.false_eq_true, if_false, treeParts, nodeParts,
      if_pos hname, hcontent, scriptElement]
    simp
  have hmem : .tag (.sealed (scriptElement o.script)) ∈ o.docParts := by
    have hbody : .tag (.sealed (scriptElement o.script)) ∈ treeParts o.bodyNodes := by
      simp [Outline.bodyNodes, treeParts, treeParts_append, hscript]
    have hhtml : "html".toList ∉ sealedNames := by decide
    have hname : "body".toList ∉ sealedNames := by decide
    simp [Outline.docParts, Outline.nodes, Outline.children, treeParts, nodeParts_element hhtml,
      nodeParts_element hname, hbody]
  rw [Outline.document, tags_spans]
  exact List.mem_filterMap.2 ⟨_, hmem, rfl⟩

/-- In a reduced document the script is compact. -/
theorem reduced_scriptElement {script : List Char} (h : Script.Complete script) :
    (scriptElement script).reduced =
      ⟨"script".toList, [], Script.compact ('\n' :: (script ++ "\n  ".toList))⟩ := by
  have hnul : '\x00' ∉ '\n' :: (script ++ "\n  ".toList) := by
    simp [h.not_mem (c := '\x00') (by decide)]
  have hwithout : (scriptElement script).withoutNul = scriptElement script := by
    simp only [Element.withoutNul, scriptElement, dropNul_of_not_mem hnul, List.map_nil]
  rw [Element.reduced, hwithout]
  rfl

theorem tidy_append {a b : List Char} (h : EndsSolid (Shield.dropNul a)) (ha : tidy a = a) :
    tidy (a ++ b) = a ++ tidy b := by
  rw [tidy, dropNul_append, h.collapse_append, tidy]
  exact congrArg (· ++ _) ha

theorem tidy_formId (id : String) : tidy (formId id).toList = (formId id).toList ↔
    tidy id.toList = id.toList := by
  have hsolid : EndsSolid (Shield.dropNul "form-".toList) := ⟨"form".toList, '-', by decide, by decide⟩
  rw [formId, String.toList_append, tidy_append hsolid (by decide), List.append_cancel_left_eq]

theorem tidy_messageId (id : String) : tidy (messageId id).toList = (messageId id).toList ↔
    tidy id.toList = id.toList := by
  have hsolid : EndsSolid (Shield.dropNul "form-message-".toList) :=
    ⟨"form-message".toList, '-', by decide, by decide⟩
  rw [messageId, String.toList_append, tidy_append hsolid (by decide), List.append_cancel_left_eq]

section

variable {v : Vendors} {o : Options} {clock : ClockReading} {p : Page} {out : Output}

/-- What a reader finds in the document of a page whose raw values are safe. -/
theorem read_of_compile (hp : SafeValues p) (h : compile v o clock p = .ok out) :
    ∃ script, Script.page o.form (Section.inOrder p.sections) = .ok script ∧
      read out.html = if o.minify then reduced (pageOutline v o clock p script).document
        else (pageOutline v o clock p script).document := by
  obtain ⟨script, hscript, hhtml, -⟩ := compile_eq h
  have hwf : (pageOutline v o clock p script).WellFormed := wellFormed_pageOutline hp hscript
  have hd := hwf.wellFormed_document
  refine ⟨script, hscript, ?_⟩
  rw [hhtml]
  split
  · rw [reduce_text (Outline.reducible_document hwf (fewMetas_pageOutline script)),
      read_text (reduced_wellFormed hd).legible]
  · exact read_text hd.legible

/-- A reader loses nothing of the document of a page whose raw values are safe. -/
theorem text_read_of_compile {out : Output} (hp : SafeValues p) (h : compile v o clock p = .ok out) :
    text (read out.html) = out.html := by
  obtain ⟨script, hscript, hhtml, -⟩ := compile_eq h
  obtain ⟨script', hscript', hread⟩ := read_of_compile hp h
  obtain rfl : script = script' := Except.ok.inj (hscript.symm.trans hscript')
  have hwf : (pageOutline v o clock p script).WellFormed := wellFormed_pageOutline hp hscript
  rw [hread, hhtml]
  split
  · exact (reduce_text (Outline.reducible_document hwf (fewMetas_pageOutline script))).symm
  · rfl

/-- An id that the layout writes is found as it is, unless the reduction changes it. -/
theorem mem_ids_iff {script : List Char}
    (hread : read out.html = if o.minify then reduced (pageOutline v o clock p script).document
      else (pageOutline v o clock p script).document)
    {n x : String} (hn : n.toList ≠ "img".toList) (hx : x ≠ "") {as : List Attribute}
    (h : .escaped "id" x :: as ∈ treeAttrs n (pageOutline v o clock p script).nodes) :
    x.toList ∈ ids n out.html ↔ (o.minify = true → tidy x.toList = x.toList) := by
  have hmem : (Attribute.escaped "id" x :: as).map attrOf ∈
      attrsOf n.toList (pageOutline v o clock p script).document := by
    rw [Outline.attrsOf_document]
    exact List.mem_map.2 ⟨_, h, rfl⟩
  have hescaped : EveryAttrs IdEscaped (pageOutline v o clock p script).nodes :=
    everyAttrs_pageOutline admits_idEscaped (fun _ _ _ _ => trivial) script
  rw [ids, hread]
  cases o.minify with
  | false =>
    simp only [Bool.false_eq_true, if_false, false_implies, iff_true]
    exact List.mem_filterMap.2 ⟨_, hmem, idOf?_escaped x as⟩
  | true =>
    simp only [if_true, true_implies, attrsOf_reduced]
    constructor
    · intro hx
      obtain ⟨_, hreduced, hid⟩ := List.mem_filterMap.1 hx
      obtain ⟨attrs, hattrs, rfl⟩ := List.mem_map.1 hreduced
      obtain ⟨s, hs, ht⟩ := exists_opening hattrs
      have hpart : .tag (.opening n.toList attrs) ∈ treeParts (pageOutline v o clock p script).nodes := by
        rcases List.mem_cons.1 (ht ▸ (mem_spans hs).1) with h | h
        · cases h
        · exact h
      obtain ⟨bs, rfl, hbs⟩ := mem_treeParts_attrs _ hescaped _ _ hpart
      exact tidy_of_idOf? hbs hid
    · intro htidy
      exact List.mem_filterMap.2 ⟨_, List.mem_map.2 ⟨_, hmem, rfl⟩, idOf?_reduced hx htidy hn as⟩

/-- The script of each form is in the document, and it looks up the ids that the layout writes. -/
theorem exists_handler {script : List Char} (hscript : Script.page o.form (Section.inOrder p.sections) = .ok script)
    (hread : read out.html = if o.minify then reduced (pageOutline v o clock p script).document
      else (pageOutline v o clock p script).document)
    {s : Section} (hs : s ∈ p.sections) {a : CallToAction} (ha : s.form? = some a) :
    ∃ backend e, o.form.resolve = .ok backend ∧ .sealed e ∈ (read out.html).map Span.tag ∧
      e.name = "script".toList ∧
      (if o.minify then Script.compact (Script.handler s.id a backend)
        else Script.handler s.id a backend) <:+: e.content := by
  obtain ⟨backend, u, w, hbackend, hu, hsplit⟩ := Script.exists_page_eq hscript (mem_inOrder.2 hs) ha
  have hcomplete := Script.complete_page hscript
  have hne : script ≠ [] := by
    obtain ⟨x, hx⟩ := Script.exists_handler_eq s.id a backend
    rw [hsplit, hx]
    simp [Script.beforeForm]
  have hmem : .sealed (scriptElement script) ∈
      (pageOutline v o clock p script).document.map Span.tag :=
    scriptElement_mem (o := pageOutline v o clock p script) hne
  have hcontent : '\n' :: (script ++ "\n  ".toList) =
      '\n' :: u ++ (Script.handler s.id a backend ++ (w ++ "\n  ".toList)) := by
    rw [hsplit]
    simp
  rw [hread]
  cases o.minify with
  | false =>
    refine ⟨backend, scriptElement script, hbackend, hmem, rfl, '\n' :: u, w ++ "\n  ".toList, ?_⟩
    show '\n' :: u ++ Script.handler s.id a backend ++ (w ++ "\n  ".toList) = '\n' :: (script ++ "\n  ".toList)
    rw [hcontent, List.append_assoc]
  | true =>
    refine ⟨backend, _, hbackend, mem_tags_reduced (by rintro _ ⟨⟩) hmem, ?_⟩
    show (scriptElement script).reduced.name = _ ∧ _ <:+: (scriptElement script).reduced.content
    rw [reduced_scriptElement hcomplete, hcontent]
    exact ⟨rfl, Script.compact_handler_infix (.char (by decide) (by decide) (by decide) hu) s.id a backend _⟩

/-- The script of each form of a page looks up a form and a place for messages. With the reduction,
the document has elements of these ids just when the id of the section holds no NUL character and
no white space but single spaces; without it, it always has them. -/
theorem lookups_of_compile (hp : SafeValues p) (h : compile v o clock p = .ok out) {s : Section}
    (hs : s ∈ p.sections) {a : CallToAction} (ha : s.form? = some a) :
    (∃ backend e handler, o.form.resolve = .ok backend ∧ .sealed e ∈ (read out.html).map Span.tag ∧
      e.name = "script".toList ∧ handler <:+: e.content ∧
      handler = (if o.minify then Script.compact (Script.handler s.id a backend)
        else Script.handler s.id a backend) ∧
      (Script.lookups handler).take 2 = [(formId s.id).toList, (messageId s.id).toList]) ∧
    ((formId s.id).toList ∈ ids "form" out.html ↔ (o.minify = true → tidy s.id.toList = s.id.toList)) ∧
    ((messageId s.id).toList ∈ ids "div" out.html ↔
      (o.minify = true → tidy s.id.toList = s.id.toList)) := by
  obtain ⟨script, hscript, hread⟩ := read_of_compile hp h
  obtain ⟨hnode, henabled⟩ := node?_of_form? (c := Compile.context o clock p (Section.inOrder p.sections)) ha
  obtain ⟨as, as', hform, hmessage⟩ := form_mem_callToAction s.id
    (Compile.context o clock p (Section.inOrder p.sections)) henabled
  have hbody : ∀ n attrs, attrs ∈ nodeAttrs n (callToAction s.id a
      (Compile.context o clock p (Section.inOrder p.sections))) →
        attrs ∈ treeAttrs n (pageOutline v o clock p script).nodes := by
    intro n attrs hattrs
    refine treeAttrs_body_subset n (pageOutline v o clock p script) (mem_treeAttrs.2 ⟨_, ?_, hattrs⟩)
    exact mem_bodyTrees_of_node? (mem_inOrder.2 hs) hnode
  have hne : ∀ x y : String, x ≠ "" → x ++ y ≠ "" := by
    intro x y hx h
    have := congrArg String.toList h
    rw [String.toList_append, String.toList_empty, List.append_eq_nil_iff] at this
    exact hx (String.toList_inj.1 this.1)
  have hformId : formId s.id ≠ "" := hne _ _ (by decide)
  have hmessageId : messageId s.id ≠ "" := hne _ _ (by decide)
  refine ⟨?_, ?_, ?_⟩
  · obtain ⟨backend, e, hbackend, he, hname, hinfix⟩ := exists_handler hscript hread hs ha
    refine ⟨backend, e, _, hbackend, he, hname, hinfix, rfl, ?_⟩
    split
    · exact Script.lookups_compact s.id a backend
    · exact Script.lookups_handler s.id a backend
  · rw [mem_ids_iff hread (by decide) hformId (hbody _ _ hform), tidy_formId]
  · rw [mem_ids_iff hread (by decide) hmessageId (hbody _ _ hmessage), tidy_messageId]

end

/-- A page with a contact form in a section whose id has two spaces in a row. -/
def spacedPage : Page where
  id := "p"
  title := "T"
  sections := [{ id := "a  b", order := 0, block := .callToAction { formEnabled := true } }]

/-- The reduced document of this page has no form of the id that its script looks up. -/
theorem lookups_of_spacedPage : ∃ out, compile {} {} sampleClock spacedPage = .ok out ∧
    SafeValues spacedPage ∧
    (∃ e handler, .sealed e ∈ (read out.html).map Span.tag ∧ e.name = "script".toList ∧
      handler <:+: e.content ∧
      (Script.lookups handler).take 2 = ["form-a  b".toList, "form-message-a  b".toList]) ∧
    "form-a  b".toList ∉ ids "form" out.html := by
  have hsafe : SafeValues spacedPage := ⟨by decide, by decide, by decide⟩
  obtain ⟨out, h⟩ := exists_compile (v := {}) (o := {}) (p := spacedPage) rfl sampleClock_inRange
  obtain ⟨⟨_, e, handler, -, he, hname, hinfix, -, hlookups⟩, hform, -⟩ :=
    lookups_of_compile hsafe h (List.mem_singleton.2 rfl) rfl
  exact ⟨out, h, hsafe, ⟨e, handler, he, hname, hinfix, hlookups⟩,
    fun hm => absurd (hform.1 hm rfl) (by decide)⟩

end PagePress.Markup
