import PagePress.Page.Reading
import PagePress.Proofs.Render.Ids

/-!
Ids that are given out twice. The ids of sections are free and may look like ids that are made for
parts of forms, so sections with different ids can still get into each other's way. Which ids do is
known from the sections (`Section.Clear`), and where none do, a lookup of a form's id finds the
form of that section and nothing else (`nodup_ids_body`).
-/

namespace PagePress

open Render

namespace Section

/-- No id that the first section gives out can be taken for one of the second, apart from the ids
of the sections themselves. -/
structure Clear (x y : Section) : Prop where
  /-- The section is not called like a part of the other's form. -/
  container : x.isKnown = true → x.id ∉ y.formIds
  /-- The form is not called like the place where the other reports, and neither of the two is
  called like an input of the other's form. -/
  form : ∀ a b, x.form? = some a → y.form? = some b → x.id ≠ "message-" ++ y.id ∧
    ∀ f ∈ b.formFields.enabled, x.id ≠ withField y.id f ∧ "message-" ++ x.id ≠ withField y.id f

/-! ### Ids that are made from others -/

theorem formId_inj {x y : String} : formId x = formId y ↔ x = y := String.append_right_inj _

theorem messageId_eq (x : String) : messageId x = formId ("message-" ++ x) := by
  rw [messageId, formId, ← String.append_assoc]
  rfl

theorem inputId_eq (x : String) (f : FormField) : inputId x f = formId (withField x f) := by
  simp only [inputId, withField, formId, String.append_assoc]

theorem length_withField (x : String) (f : FormField) :
    x.length < (withField x f).length ∧ (withField x f).length < x.length + 8 := by
  have hname : 0 < (inputSpec f).name.length ∧ (inputSpec f).name.length < 7 := by
    cases f <;> decide
  have hdash : "-".length = 1 := rfl
  simp only [withField, String.length_append, hdash]
  omega

theorem length_message (x : String) : ("message-" ++ x).length = x.length + 8 := by
  have hmessage : "message-".length = 8 := rfl
  rw [String.length_append, hmessage]
  omega

/-- A name of an input behind a text can be told from the text. -/
theorem withField_inj {x y : String} {f g : FormField} (h : withField x f = withField y g) :
    x = y ∧ f = g := by
  have hfg : f = g := by
    have hl := congrArg (fun s => s.toList.reverse.take 5) h
    cases f <;> cases g <;> simp [withField, inputSpec] at hl <;> rfl
  subst hfg
  refine ⟨?_, rfl⟩
  simpa only [withField, String.append_left_inj] using h

/-! ### Ids that are given out once -/

theorem nodup_enabled (f : FormFields) : f.enabled.Nodup := by
  obtain ⟨n, e, p⟩ := f
  cases n <;> cases e <;> cases p <;> decide

theorem mem_formIds {s : Section} {i : String} : i ∈ s.formIds ↔ ∃ a, s.form? = some a ∧
    (i = formId s.id ∨ (∃ f ∈ a.formFields.enabled, i = inputId s.id f) ∨ i = messageId s.id) := by
  unfold formIds
  cases s.form? with
  | none => simp
  | some a => simp [eq_comm]

theorem isKnown_of_form? {s : Section} {a : CallToAction} (h : s.form? = some a) : s.isKnown = true := by
  cases hs : s.isKnown with
  | true => rfl
  | false =>
    obtain ⟨k, d, hb⟩ := s.exists_unknown hs
    simp [form?, hb] at h

/-- All ids of the form of a section are longer than the id of the section. -/
theorem length_lt_of_mem_formIds {s : Section} {i : String} (h : i ∈ s.formIds) :
    s.id.length < i.length := by
  have hform : ∀ t, (formId t).length = t.length + 5 := fun t => by
    have : "form-".length = 5 := rfl
    rw [formId, String.length_append, this]
    omega
  obtain ⟨a, -, rfl | ⟨f, -, rfl⟩ | rfl⟩ := mem_formIds.1 h
  · rw [hform]
    omega
  · have := length_withField s.id f
    rw [inputId_eq, hform]
    omega
  · rw [messageId_eq, hform, length_message]
    omega

theorem nodup_formIds (s : Section) : s.formIds.Nodup := by
  unfold formIds
  cases s.form? with
  | none => exact List.nodup_nil
  | some a =>
    have hfields : (a.formFields.enabled.map (inputId s.id)).Nodup := by
      refine List.Nodup.map_on (fun f _ g _ h => ?_) (nodup_enabled _)
      rw [inputId_eq, inputId_eq, formId_inj] at h
      exact (withField_inj h).2
    have hmessage : messageId s.id ∉ a.formFields.enabled.map (inputId s.id) := by
      intro h
      obtain ⟨f, -, hf⟩ := List.mem_map.1 h
      rw [inputId_eq, messageId_eq, formId_inj] at hf
      have h1 := length_withField s.id f
      have h2 := length_message s.id
      rw [hf] at h1
      omega
    have hform : formId s.id ∉ a.formFields.enabled.map (inputId s.id) ++ [messageId s.id] := by
      intro h
      rcases List.mem_append.1 h with h | h
      · obtain ⟨f, -, hf⟩ := List.mem_map.1 h
        rw [inputId_eq, formId_inj] at hf
        have h1 := length_withField s.id f
        rw [hf] at h1
        omega
      · have hm := List.mem_singleton.1 h
        rw [messageId_eq, formId_inj] at hm
        have h2 := length_message s.id
        rw [← hm] at h2
        omega
    refine List.nodup_cons.2 ⟨hform, ?_⟩
    rw [List.nodup_append]
    refine ⟨hfields, List.nodup_singleton _, ?_⟩
    rintro i hi j hj rfl
    obtain rfl := List.mem_singleton.1 hj
    exact hmessage hi

theorem nodup_domIds (s : Section) : s.domIds.Nodup := by
  unfold domIds
  split
  · refine List.nodup_cons.2 ⟨fun h => ?_, nodup_formIds s⟩
    have := length_lt_of_mem_formIds h
    omega
  · exact List.nodup_nil

theorem mem_domIds {s : Section} {i : String} :
    i ∈ s.domIds ↔ s.isKnown = true ∧ (i = s.id ∨ i ∈ s.formIds) := by
  unfold domIds
  split <;> simp_all

theorem mem_domIds_of_formIds {s : Section} {i : String} (h : i ∈ s.formIds) : i ∈ s.domIds := by
  obtain ⟨a, ha, -⟩ := mem_formIds.1 h
  exact mem_domIds.2 ⟨isKnown_of_form? ha, .inr h⟩

/-- A section is never in its own way. -/
theorem clear_self (s : Section) : Clear s s where
  container _ h := by
    have := length_lt_of_mem_formIds h
    omega
  form a b _ _ := by
    have hm := length_message s.id
    refine ⟨fun h => ?_, fun f _ => ⟨fun h => ?_, fun h => ?_⟩⟩
    · rw [← h] at hm
      omega
    · have hf := length_withField s.id f
      rw [← h] at hf
      omega
    · have hf := length_withField s.id f
      rw [← h] at hf
      omega

/-- Sections that have no id in common are in neither's way. -/
theorem clear_of_disjoint {x y : Section} (h : x.domIds.Disjoint y.domIds) : Clear x y where
  container hx hy := h (mem_domIds.2 ⟨hx, .inl rfl⟩) (mem_domIds_of_formIds hy)
  form a b ha hb := by
    have hform : formId x.id ∈ x.domIds := mem_domIds_of_formIds (mem_formIds.2 ⟨a, ha, .inl rfl⟩)
    have hmessage : messageId x.id ∈ x.domIds :=
      mem_domIds_of_formIds (mem_formIds.2 ⟨a, ha, .inr (.inr rfl)⟩)
    refine ⟨fun he => h hform ?_, fun f hf => ⟨fun he => h hform ?_, fun he => h hmessage ?_⟩⟩
    · rw [he, ← messageId_eq]
      exact mem_domIds_of_formIds (mem_formIds.2 ⟨b, hb, .inr (.inr rfl)⟩)
    · rw [he, ← inputId_eq]
      exact mem_domIds_of_formIds (mem_formIds.2 ⟨b, hb, .inr (.inl ⟨f, hf, rfl⟩)⟩)
    · rw [messageId_eq, he, ← inputId_eq]
      exact mem_domIds_of_formIds (mem_formIds.2 ⟨b, hb, .inr (.inl ⟨f, hf, rfl⟩)⟩)

/-- The forms of sections with different ids have no id in common unless one is in the other's
way. -/
theorem disjoint_formIds {x y : Section} (hne : x.id ≠ y.id) (h : Clear x y) (h' : Clear y x) :
    x.formIds.Disjoint y.formIds := by
  intro i hx hy
  obtain ⟨a, ha, hx⟩ := mem_formIds.1 hx
  obtain ⟨b, hb, hy⟩ := mem_formIds.1 hy
  obtain ⟨hmessage, hfield⟩ := h.form a b ha hb
  obtain ⟨hmessage', hfield'⟩ := h'.form b a hb ha
  simp only [inputId_eq, messageId_eq] at hx hy
  rcases hx with rfl | ⟨f, hf, rfl⟩ | rfl
  · rcases hy with hy | ⟨g, hg, hy⟩ | hy
    · exact hne (formId_inj.1 hy)
    · exact (hfield g hg).1 (formId_inj.1 hy)
    · exact hmessage (formId_inj.1 hy)
  · rcases hy with hy | ⟨g, hg, hy⟩ | hy
    · exact (hfield' f hf).1 (formId_inj.1 hy.symm)
    · exact hne (withField_inj (formId_inj.1 hy)).1
    · exact (hfield' f hf).2 (formId_inj.1 hy.symm)
  · rcases hy with hy | ⟨g, hg, hy⟩ | hy
    · exact hmessage' (formId_inj.1 hy.symm)
    · exact (hfield g hg).2 (formId_inj.1 hy)
    · exact hne ((String.append_right_inj _).1 (formId_inj.1 hy))

theorem disjoint_of_clear {x y : Section} (hne : x.id ≠ y.id) (h : Clear x y) (h' : Clear y x) :
    x.domIds.Disjoint y.domIds := by
  intro i hx hy
  obtain ⟨hknown, hx⟩ := mem_domIds.1 hx
  obtain ⟨hknown', hy⟩ := mem_domIds.1 hy
  rcases hx with rfl | hx
  · rcases hy with hy | hy
    · exact hne hy
    · exact h.container hknown hy
  · rcases hy with rfl | hy
    · exact h'.container hknown' hx
    · exact disjoint_formIds hne h h' hx hy

/-- Sections with different ids give out every id once just when none is in another's way. -/
theorem nodup_flatMap_domIds {l : List Section} (hids : (l.map id).Nodup) :
    (l.flatMap domIds).Nodup ↔ ∀ x ∈ l, ∀ y ∈ l, Clear x y := by
  rw [List.nodup_flatMap]
  constructor
  · rintro ⟨-, hdisjoint⟩ x hx y hy
    have : Std.Symm (Function.onFun List.Disjoint domIds) := ⟨fun _ _ h _ hy hx => h hx hy⟩
    by_cases hne : x = y
    · exact hne ▸ clear_self x
    · exact clear_of_disjoint (hdisjoint.forall hx hy hne)
  · intro h
    have hne : l.Pairwise fun x y => x.id ≠ y.id := List.pairwise_map.1 hids
    exact ⟨fun s _ => nodup_domIds s, hne.imp_of_mem fun hx hy hne =>
      disjoint_of_clear hne (h _ hx _ hy) (h _ hy _ hx)⟩

end Section

namespace Markup

open Text Html

/-- An id that is given out once is the id of one tag. -/
theorem withId_of_nodup {html : List Char} {t : Tag Element} {i : String} (hn : (allIds html).Nodup)
    (ht : t ∈ (read html).map Span.tag) (hi : t.id? = some i.toList) : withId i html = [t] := by
  rw [allIds] at hn
  rw [withId]
  generalize (read html).map Span.tag = ts at hn ht
  induction ts with
  | nil => cases ht
  | cons u ts ih =>
    have hrest : (ts.filterMap Tag.id?).Nodup := (List.sublist_cons_self u ts).filterMap _ |>.nodup hn
    by_cases hu : u.id? = some i.toList
    · have hnone : ∀ w ∈ ts, w.id? ≠ some i.toList := by
        intro w hw hwi
        rw [List.filterMap_cons_some hu] at hn
        exact (List.nodup_cons.1 hn).1 (List.mem_filterMap.2 ⟨w, hw, hwi⟩)
      rcases List.mem_cons.1 ht with rfl | ht
      · rw [List.filter_cons, if_pos (by simpa using hu), List.filter_eq_nil_iff.2 (by simpa using hnone)]
      · exact absurd hi (hnone t ht)
    · rcases List.mem_cons.1 ht with rfl | ht
      · exact absurd hi hu
      · rw [List.filter_cons, if_neg (by simpa using hu)]
        exact ih hrest ht

theorem mem_treeParts {p : Part Element} {ns : List Node} :
    p ∈ treeParts ns ↔ ∃ n ∈ ns, p ∈ nodeParts n := by
  induction ns with
  | nil => simp [treeParts]
  | cons n ns ih => simp [treeParts, ih]

theorem mem_nodeParts_element {p : Part Element} {n : String} (hn : isPlain n = true)
    {attrs : List Attribute} {children : List Node} (h : p ∈ treeParts children) :
    p ∈ nodeParts (.element n attrs children) := by
  rw [nodeParts_element (not_mem_sealedNames hn)]
  simp [h]

/-- The tag of a form stands in the text of its section. -/
theorem form_mem_body {c : Context} {sections : List Section}
    (hraw : ∀ s ∈ sections, ∀ v ∈ rawValues s.block, '"' ∉ v.toList) {s : Section} (hs : s ∈ sections)
    {a : CallToAction} (ha : s.form? = some a) :
    ∃ attrs, (nodeParts (form s.id a c)).head? = some (.tag (.opening "form".toList attrs)) ∧
      idOf? attrs = some (formId s.id).toList ∧
      .opening "form".toList attrs ∈ (read (Render.body c sections)).map Span.tag := by
  obtain ⟨hnode, henabled⟩ := node?_of_form? (c := c) ha
  have hplain : "form".toList ∉ sealedNames := by decide
  obtain ⟨as, cs, hform⟩ : ∃ as cs, form s.id a c = .element "form" (.escaped "id" (formId s.id) :: as) cs :=
    ⟨_, _, rfl⟩
  have hparts := nodeParts_element hplain (.escaped "id" (formId s.id) :: as) cs
  refine ⟨(Attribute.escaped "id" (formId s.id) :: as).map attrOf, ?_, idOf?_escaped _ _, ?_⟩
  · rw [hform, hparts]
    rfl
  · rw [read_body hraw, tags_spans]
    refine List.mem_filterMap.2 ⟨.tag (.opening "form".toList _), ?_, rfl⟩
    refine mem_treeParts.2 ⟨_, mem_bodyTrees_of_node? hs hnode, ?_⟩
    -- the form stands in the container of the section's parts
    refine mem_nodeParts_element (by decide) (mem_treeParts.2
      ⟨_, List.mem_cons_of_mem _ (List.mem_cons_self ..), ?_⟩)
    refine mem_nodeParts_element (by decide) (mem_treeParts.2 ⟨form s.id a c, by simp [henabled], ?_⟩)
    rw [hform, hparts]
    exact List.mem_cons_self ..

/-- Where the sections of a page have different ids and no raw value holds a quotation mark, the ids
in the text of the sections are all different just when no section is in another's way. Then the id
of a form is found at the form of that section and nowhere else. -/
theorem nodup_ids_body (p : Page) (c : Context) (hids : (p.sections.map Section.id).Nodup)
    (hraw : ∀ s ∈ p.sections, ∀ v ∈ rawValues s.block, '"' ∉ v.toList) :
    ((allIds (Render.body c (Section.inOrder p.sections))).Nodup ↔
      ∀ x ∈ p.sections, ∀ y ∈ p.sections, Section.Clear x y) ∧
    ((∀ x ∈ p.sections, ∀ y ∈ p.sections, Section.Clear x y) → ∀ s ∈ p.sections, ∀ a, s.form? = some a →
      ∃ attrs, (nodeParts (form s.id a c)).head? = some (.tag (.opening "form".toList attrs)) ∧
        withId (formId s.id) (Render.body c (Section.inOrder p.sections)) =
          [.opening "form".toList attrs]) := by
  have hraw : ∀ s ∈ Section.inOrder p.sections, ∀ v ∈ rawValues s.block, '"' ∉ v.toList :=
    fun s hs => hraw s (mem_inOrder.1 hs)
  have hids : ((Section.inOrder p.sections).map Section.id).Nodup :=
    ((Section.inOrder_perm p.sections).map _).nodup_iff.2 hids
  have key : (allIds (Render.body c (Section.inOrder p.sections))).Nodup ↔
      ∀ x ∈ p.sections, ∀ y ∈ p.sections, Section.Clear x y := by
    rw [ids_body hraw, List.nodup_map_iff fun _ _ => String.toList_inj.1,
      Section.nodup_flatMap_domIds hids]
    simp only [mem_inOrder]
  refine ⟨key, fun hclear s hs a ha => ?_⟩
  obtain ⟨attrs, hhead, hid, hmem⟩ := form_mem_body (c := c) hraw (mem_inOrder.2 hs) ha
  exact ⟨attrs, hhead, withId_of_nodup (key.2 hclear) hmem hid⟩

theorem nodup_ids_samplePage : (samplePage.sections.map Section.id).Nodup ∧
    (∀ s ∈ samplePage.sections, ∀ v ∈ rawValues s.block, '"' ∉ v.toList) ∧
    ((allIds (Render.body (Compile.context {} sampleClock samplePage samplePage.sections)
        (Section.inOrder samplePage.sections))).Nodup ↔
      ∀ x ∈ samplePage.sections, ∀ y ∈ samplePage.sections, Section.Clear x y) :=
  ⟨by decide, by decide, (nodup_ids_body samplePage _ (by decide) (by decide)).1⟩

/-- A stored page with a form in a section `x` and with a section that is called like that form. -/
def collidingValue : Value := .map [
  (.text "id", .text "p"),
  (.text "title", .text "T"),
  (.text "sections", .list [
    .map [(.text "id", .text "x"), (.text "type", .text "cta"), (.text "order", .int 0),
      (.text "data", .map [(.text "formEnabled", .bool true)])],
    .map [(.text "id", .text "form-x"), (.text "type", .text "content"), (.text "order", .int 1)]])]

def collidingPage : Page where
  id := "p"
  title := "T"
  sections := [
    { id := "x", order := 0, block := .callToAction { formEnabled := true } },
    { id := "form-x", order := 1, block := .content {} }]

/-- Different ids of sections are not enough: here the id of one section is that of another's form. -/
theorem duplicate_ids_collidingPage : Page.read collidingValue = .ok collidingPage ∧
    (collidingPage.sections.map Section.id).Nodup ∧
    (∀ s ∈ collidingPage.sections, ∀ v ∈ rawValues s.block, '<' ∉ v.toList ∧ '"' ∉ v.toList) ∧
    ¬ (allIds (Render.body (Compile.context {} sampleClock collidingPage collidingPage.sections)
      (Section.inOrder collidingPage.sections))).Nodup := by
  have hraw : ∀ s ∈ collidingPage.sections, ∀ v ∈ rawValues s.block, '<' ∉ v.toList ∧ '"' ∉ v.toList := by
    decide
  have horder : Section.inOrder collidingPage.sections = collidingPage.sections :=
    (Section.eq_inOrder (by simp [Section.Ascending, collidingPage]) fun _ => rfl).symm
  refine ⟨rfl, by decide, hraw, ?_⟩
  rw [horder, ids_body fun s hs v hv => (hraw s hs v hv).2]
  decide

end Markup

end PagePress
