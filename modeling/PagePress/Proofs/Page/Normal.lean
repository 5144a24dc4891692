import PagePress.Proofs.Page
import PagePress.Proofs.Page.Spelling

/-!
Pages in normal form. Such a page can be spelled out as a value with every field under its key, and
reading this value, possibly with further keys anywhere in it, gives the page back
(`Page.read_spelling`).
-/

namespace PagePress

open Text Spelling

/-! ### The spelling of a page -/

def Hero.spelling (h : Hero) : List (String × Spelling) :=
  [("headline", text h.headline), ("subheadline", text h.subheadline),
    ("buttonText", text h.buttonText), ("buttonAction", text h.buttonAction.name),
    ("backgroundType", text h.backgroundType.name), ("backgroundColor", text h.backgroundColor),
    ("backgroundImage", optionalText h.backgroundImage),
    ("backgroundGradient", optionalText h.backgroundGradient), ("textColor", text h.textColor),
    ("buttonColor", text h.buttonColor), ("alignment", text h.alignment.name)]

def Content.spelling (c : Content) : List (String × Spelling) :=
  [("title", text c.title), ("content", text c.content), ("imageUrl", optionalText c.imageUrl),
    ("imagePosition", text c.imagePosition.name), ("backgroundColor", text c.backgroundColor),
    ("textColor", text c.textColor), ("padding", text c.padding.name)]

def FormFields.spelling (f : FormFields) : List (String × Spelling) :=
  [("name", switch f.name), ("email", switch f.email), ("phone", switch f.phone)]

def CallToAction.spelling (a : CallToAction) : List (String × Spelling) :=
  [("title", text a.title), ("description", text a.description), ("formEnabled", switch a.formEnabled),
    ("formFields", map a.formFields.spelling), ("buttonText", text a.buttonText),
    ("recipientEmail", text a.recipientEmail), ("backgroundColor", text a.backgroundColor),
    ("textColor", text a.textColor), ("buttonColor", text a.buttonColor)]

def Theme.spelling (t : Theme) : List (String × Spelling) :=
  [("primaryColor", text t.primaryColor), ("secondaryColor", text t.secondaryColor),
    ("fontFamily", text t.fontFamily.name)]

namespace Block

/-- The kind that the type of a section names. -/
def kind : Block → String
  | hero _ => "hero"
  | content _ => "content"
  | callToAction _ => "cta"
  | unknown kind _ => kind

/-- The data of a section. Those of an unknown kind are kept as they are. -/
def spelling : Block → Spelling
  | hero h => map h.spelling
  | content c => map c.spelling
  | callToAction a => map a.spelling
  | unknown _ data => leaf (.map data)

end Block

def Section.spelling (s : Section) : Spelling :=
  map [("id", text s.id), ("type", text s.block.kind), ("order", leaf (.int s.order)),
    ("data", s.block.spelling)]

/-- A page with all its fields. -/
def Page.spelling (p : Page) : Spelling :=
  map [("id", text p.id), ("title", text p.title), ("sections", list (p.sections.map Section.spelling)),
    ("globalStyles", map p.theme.spelling),
    ("metadata", map [("description", text p.description), ("favicon", optionalText p.favicon)])]

/-! ### Normal form -/

/-- A text that is not empty, without white space at its ends. -/
def Filled (s : String) : Prop := trimmed s = s ∧ s ≠ ""

instance (s : String) : Decidable (Filled s) := inferInstanceAs (Decidable (_ ∧ _))

def Block.Normal : Block → Prop
  | hero h => (∀ s ∈ h.backgroundImage, Filled s) ∧ ∀ s ∈ h.backgroundGradient, Filled s
  | content c => ∀ s ∈ c.imageUrl, Filled s
  | callToAction a => trimmed a.recipientEmail = a.recipientEmail
  | unknown kind _ => trimmed kind = kind ∧ lowered kind = kind ∧ kind ∉ ["hero", "content", "cta"]

instance : (b : Block) → Decidable b.Normal
  | .hero h => inferInstanceAs (Decidable ((∀ s ∈ h.backgroundImage, Filled s) ∧
      ∀ s ∈ h.backgroundGradient, Filled s))
  | .content c => inferInstanceAs (Decidable (∀ s ∈ c.imageUrl, Filled s))
  | .callToAction _ => inferInstanceAs (Decidable (_ = _))
  | .unknown _ _ => inferInstanceAs (Decidable (_ ∧ _))

/-- A page that has the form in which pages are read. -/
structure Page.Normal (p : Page) : Prop where
  id : Filled p.id
  favicon : ∀ s ∈ p.favicon, Filled s
  ids : ∀ s ∈ p.sections, Filled s.id
  blocks : ∀ s ∈ p.sections, s.block.Normal

/-! ### Reading what is spelled -/

namespace Page

section

variable {fs : Entries} {key : String}

theorem textAt_of_lookup {s : String} (h : Value.lookup? key fs = some (.text s)) (default : String) :
    textAt fs key default = s := by
  rw [textAt, present?_eq_some.2 ⟨h, by simp⟩]
  rfl

theorem nonBlank?_of_filled {s : String} (h : Filled s) : nonBlank? s = some s := by
  unfold nonBlank?
  rw [if_neg, h.1]
  intro hempty
  apply h.2
  rw [← h.1, trimmed, List.isEmpty_iff.1 hempty]

theorem optionalTextAt_of_lookup {s : Option String} (hs : ∀ t ∈ s, Filled t)
    (h : Value.lookup? key fs = some ((s.map Value.text).getD .null)) : optionalTextAt fs key = s := by
  cases s with
  | none =>
    rw [optionalTextAt, present?_eq_none.2 (.inr h)]
    rfl
  | some t =>
    rw [optionalTextAt, present?_eq_some.2 ⟨h, by simp⟩]
    exact nonBlank?_of_filled (hs t rfl)

theorem switchAt_of_lookup {b : Bool} (h : Value.lookup? key fs = some (.bool b)) (default : Bool) :
    switchAt fs key default = b := by
  rw [switchAt, present?_eq_some.2 ⟨h, by simp⟩]
  rfl

theorem choiceAt_of_lookup {α : Type} {names : List (String × α)} {n : String} {x : α}
    (hx : names.lookup (lowered (trimmed n)) = some x) (h : Value.lookup? key fs = some (.text n))
    (default : α) : choiceAt names fs key default = x := by
  rw [choiceAt, present?_eq_some.2 ⟨h, by simp⟩]
  show (names.lookup (lowered (trimmed n))).getD default = x
  rw [hx]
  rfl

end

/-! Every choice is found under its own name. -/

theorem lookup_buttonAction (x : ButtonAction) :
    ButtonAction.names.lookup (lowered (trimmed x.name)) = some x := by
  cases x <;> decide

theorem lookup_backgroundType (x : BackgroundType) :
    BackgroundType.names.lookup (lowered (trimmed x.name)) = some x := by
  cases x <;> decide

theorem lookup_alignment (x : Alignment) :
    Alignment.names.lookup (lowered (trimmed x.name)) = some x := by
  cases x <;> decide

theorem lookup_imagePosition (x : ImagePosition) :
    ImagePosition.names.lookup (lowered (trimmed x.name)) = some x := by
  cases x <;> decide

theorem lookup_padding (x : Padding) : Padding.names.lookup (lowered (trimmed x.name)) = some x := by
  cases x <;> decide

theorem lookup_fontFamily (x : FontFamily) :
    FontFamily.names.lookup (lowered (trimmed x.name)) = some x := by
  cases x <;> decide

/-! ### The parts of a page -/

variable {fs : Entries}

theorem readHero_of_holds {h : Hero} (hn : (Block.hero h).Normal) (hfs : Holds fs h.spelling) :
    readHero fs = h := by
  obtain ⟨himage, hgradient⟩ := hn
  simp only [Hero.spelling, holds_text, holds_optionalText, holds_nil, and_true] at hfs
  obtain ⟨headline, subheadline, buttonText, buttonAction, backgroundType, backgroundColor,
    backgroundImage, backgroundGradient, textColor, buttonColor, alignment⟩ := hfs
  simp only [readHero, textAt_of_lookup headline, textAt_of_lookup subheadline,
    textAt_of_lookup buttonText, choiceAt_of_lookup (lookup_buttonAction _) buttonAction,
    choiceAt_of_lookup (lookup_backgroundType _) backgroundType, textAt_of_lookup backgroundColor,
    optionalTextAt_of_lookup himage backgroundImage,
    optionalTextAt_of_lookup hgradient backgroundGradient, textAt_of_lookup textColor,
    textAt_of_lookup buttonColor, choiceAt_of_lookup (lookup_alignment _) alignment]

theorem readContent_of_holds {c : Content} (hn : (Block.content c).Normal) (hfs : Holds fs c.spelling) :
    readContent fs = c := by
  simp only [Content.spelling, holds_text, holds_optionalText, holds_nil, and_true] at hfs
  obtain ⟨title, content, imageUrl, imagePosition, backgroundColor, textColor, padding⟩ := hfs
  simp only [readContent, textAt_of_lookup title, textAt_of_lookup content,
    optionalTextAt_of_lookup hn imageUrl, choiceAt_of_lookup (lookup_imagePosition _) imagePosition,
    textAt_of_lookup backgroundColor, textAt_of_lookup textColor,
    choiceAt_of_lookup (lookup_padding _) padding]

theorem readFormFields_of_holds {f : FormFields} (hfs : Holds fs f.spelling) : readFormFields fs = f := by
  simp only [FormFields.spelling, holds_switch, holds_nil, and_true] at hfs
  obtain ⟨name, email, phone⟩ := hfs
  simp only [readFormFields, switchAt_of_lookup name, switchAt_of_lookup email, switchAt_of_lookup phone]

theorem readTheme_of_holds {t : Theme} (hfs : Holds fs t.spelling) : readTheme fs = t := by
  simp only [Theme.spelling, holds_text, holds_nil, and_true] at hfs
  obtain ⟨primaryColor, secondaryColor, fontFamily⟩ := hfs
  simp only [readTheme, textAt_of_lookup primaryColor, textAt_of_lookup secondaryColor,
    choiceAt_of_lookup (lookup_fontFamily _) fontFamily]

theorem readCallToAction_of_fits {a : CallToAction} (hn : (Block.callToAction a).Normal)
    (h : Fits fs a.spelling) : readCallToAction fs = .ok a := by
  obtain ⟨gs, hfields, hgs⟩ := h.exists_fits (k := "formFields") (l := a.formFields.spelling)
    (by simp [CallToAction.spelling])
  have hfs := h.holds
  simp only [CallToAction.spelling, holds_text, holds_switch, holds_map, holds_nil, and_true] at hfs
  obtain ⟨title, description, formEnabled, buttonText, recipientEmail, backgroundColor, textColor,
    buttonColor⟩ := hfs
  unfold readCallToAction
  rw [hfields]
  show Except.ok _ = _
  simp only [textAt_of_lookup title, textAt_of_lookup description, switchAt_of_lookup formEnabled,
    readFormFields_of_holds hgs.holds, textAt_of_lookup buttonText, textAt_of_lookup recipientEmail,
    textAt_of_lookup backgroundColor, textAt_of_lookup textColor, textAt_of_lookup buttonColor]
  rw [show trimmed a.recipientEmail = a.recipientEmail from hn]

theorem exists_readBlock {b : Block} (hn : b.Normal) {w : Value} (h : b.spelling.Widened w)
    (place : MappingPlace) :
    ∃ data, mappingOf place (some w) = .ok data ∧ readBlock b.kind data = .ok b := by
  cases b with
  | hero hero =>
    obtain ⟨fs, rfl, hfs⟩ := exists_fits h
    exact ⟨fs, rfl, congrArg (fun x => Except.ok (Block.hero x)) (readHero_of_holds hn hfs.holds)⟩
  | content c =>
    obtain ⟨fs, rfl, hfs⟩ := exists_fits h
    exact ⟨fs, rfl, congrArg (fun x => Except.ok (Block.content x)) (readContent_of_holds hn hfs.holds)⟩
  | callToAction a =>
    obtain ⟨fs, rfl, hfs⟩ := exists_fits h
    refine ⟨fs, rfl, ?_⟩
    show (readCallToAction fs).map Block.callToAction = _
    rw [readCallToAction_of_fits hn hfs]
    rfl
  | unknown kind data =>
    obtain rfl : w = .map data := h
    obtain ⟨-, -, hkind⟩ := hn
    simp only [List.mem_cons, List.not_mem_nil, or_false, not_or] at hkind
    refine ⟨data, rfl, ?_⟩
    show readBlock kind data = _
    rw [readBlock, if_neg hkind.1, if_neg hkind.2.1, if_neg hkind.2.2]

theorem lowered_kind {b : Block} (hn : b.Normal) : lowered (trimmed b.kind) = b.kind := by
  cases b with
  | hero h =>
    show lowered (trimmed "hero") = "hero"
    decide
  | content c =>
    show lowered (trimmed "content") = "content"
    decide
  | callToAction a =>
    show lowered (trimmed "cta") = "cta"
    decide
  | unknown kind data =>
    obtain ⟨htrim, hlower, -⟩ := hn
    show lowered (trimmed kind) = kind
    rw [htrim, hlower]

theorem readSection_of_widened {s : Section} (hid : Filled s.id) (hn : s.block.Normal) {w : Value}
    (h : s.spelling.Widened w) (index : Nat) : readSection index w = .ok s := by
  obtain ⟨fs, rfl, hfs⟩ := exists_fits h
  obtain ⟨data, hdata, hblock⟩ := hfs.exists_lookup (k := "data") (s := s.block.spelling) (by simp)
  obtain ⟨id, type, order, -⟩ : _ ∧ _ ∧ _ ∧ _ := by
    simpa only [holds_text, holds_leaf] using hfs.holds
  have hentry : mappingOf (.sectionEntry index) (some (.map fs)) = .ok fs := rfl
  have hread : optionalTextAt fs "id" = some s.id :=
    optionalTextAt_of_lookup (s := some s.id) (by simpa using hid) id
  have hkind : kindOf fs = s.block.kind := by
    rw [kindOf, type]
    exact lowered_kind hn
  obtain ⟨gs, hgs, hdone⟩ := exists_readBlock hn hblock (.sectionData s.id)
  rw [readSection, hentry]
  dsimp only [bind, Except.bind]
  rw [hread, order, hdata, hkind]
  dsimp only [Option.getD_some, orderOf?]
  rw [hgs]
  dsimp only
  rw [hdone]
  rfl

theorem readSections_of_widened {sections : List Section} (hids : ∀ s ∈ sections, Filled s.id)
    (hn : ∀ s ∈ sections, s.block.Normal) {ws : List Value}
    (h : WidenedItems (sections.map Section.spelling) ws) (index : Nat) :
    readSections index ws = .ok sections := by
  induction sections generalizing ws index with
  | nil =>
    obtain rfl : ws = [] := h
    rfl
  | cons s sections ih =>
    obtain ⟨w, ws, rfl, hw, h⟩ := h
    rw [readSections, readSection_of_widened (hids s (by simp)) (hn s (by simp)) hw]
    show (readSections (index + 1) ws).map _ = _
    rw [ih (fun t ht => hids t (by simp [ht])) (fun t ht => hn t (by simp [ht])) h]
    rfl

theorem read_of_widened {p : Page} (hp : p.Normal) {v : Value} (h : p.spelling.Widened v) :
    read v = .ok p := by
  obtain ⟨fs, rfl, hfs⟩ := exists_fits h
  obtain ⟨w, hsections, ws, rfl, hws⟩ := hfs.exists_lookup (k := "sections")
    (s := list (p.sections.map Section.spelling)) (by simp)
  obtain ⟨styles, hstyles, hs⟩ := hfs.exists_fits (k := "globalStyles") (l := p.theme.spelling) (by simp)
  obtain ⟨metadata, hmetadata, hm⟩ := hfs.exists_fits (k := "metadata")
    (l := [("description", text p.description), ("favicon", optionalText p.favicon)]) (by simp)
  obtain ⟨id, title⟩ : _ ∧ _ := by
    simpa only [holds_text, holds_list, holds_map, holds_nil, and_true] using hfs.holds
  obtain ⟨description, favicon⟩ : _ ∧ _ := by
    simpa only [holds_text, holds_optionalText, holds_nil, and_true] using hm.holds
  have hread : optionalTextAt fs "id" = some p.id :=
    optionalTextAt_of_lookup (s := some p.id) (by simpa using hp.id) id
  have hentries : sectionEntries fs = .ok ws := by
    rw [sectionEntries, present?_eq_some.2 ⟨hsections, by simp⟩]
    rfl
  have hdone := readSections_of_widened hp.ids hp.blocks hws 0
  rw [read]
  dsimp only [Value.entries?]
  rw [hentries, hstyles, hmetadata]
  dsimp only [bind, Except.bind, mappingOf, Value.entries?, Option.map_some, Option.getD_some]
  rw [hdone]
  dsimp only
  rw [hread, textAt_of_lookup title, readTheme_of_holds hs.holds, textAt_of_lookup description,
    optionalTextAt_of_lookup hp.favicon favicon]
  rfl

/-! ### Pages with all their fields -/

theorem distinct_block (b : Block) : b.spelling.Distinct := by
  have hleaf : ∀ v, (leaf v).Distinct := fun _ => trivial
  cases b with
  | hero h =>
    refine ⟨?_, ?_⟩
    · simp [Hero.spelling]
    · simp [Hero.spelling, DistinctEntries, text, optionalText, hleaf]
  | content c =>
    refine ⟨?_, ?_⟩
    · simp [Content.spelling]
    · simp [Content.spelling, DistinctEntries, text, optionalText, hleaf]
  | callToAction a =>
    have hfields : (map a.formFields.spelling).Distinct := by
      refine ⟨?_, ?_⟩
      · simp [FormFields.spelling]
      · simp [FormFields.spelling, DistinctEntries, switch, hleaf]
    refine ⟨?_, ?_⟩
    · simp [CallToAction.spelling]
    · simp [CallToAction.spelling, DistinctEntries, text, switch, hleaf, hfields]
  | unknown kind data => exact hleaf _

theorem distinct_spelling (p : Page) : p.spelling.Distinct := by
  have hleaf : ∀ v, (leaf v).Distinct := fun _ => trivial
  have hsection : ∀ s : Section, s.spelling.Distinct := by
    intro s
    refine ⟨by simp, ?_⟩
    simp [DistinctEntries, text, hleaf, distinct_block]
  have hsections : ∀ sections : List Section, DistinctItems (sections.map Section.spelling) := by
    intro sections
    induction sections with
    | nil => trivial
    | cons s sections ih => exact ⟨hsection s, ih⟩
  have htheme : (map p.theme.spelling).Distinct := by
    refine ⟨?_, ?_⟩
    · simp [Theme.spelling]
    · simp [Theme.spelling, DistinctEntries, text, hleaf]
  exact ⟨by simp, hleaf _, hleaf _, hsections _, htheme, ⟨by simp, hleaf _, hleaf _, trivial⟩, trivial⟩

/-- A page in normal form is read from the value that spells it out, and from any value that has
further keys. -/
theorem read_spelling {p : Page} (hp : p.Normal) :
    read p.spelling.value = .ok p ∧ ∀ v, p.spelling.Widened v → read v = .ok p :=
  ⟨read_of_widened hp (widened_value _ (distinct_spelling p)), fun _ h => read_of_widened hp h⟩

/-- A page with a form and a section of an unknown kind. -/
def tourPage : Page where
  id := "tour"
  title := " A tour "
  sections := [
    { id := "faq", order := -1, block := .unknown "faq" [(.text "open", .int 1)] },
    { id := "write", order := 2, block := .callToAction { recipientEmail := "guide@example.org" } }]
  favicon := some "/icon.png"

theorem read_tourPage : tourPage.Normal ∧ read tourPage.spelling.value = .ok tourPage ∧
    ∃ fs, tourPage.spelling.value = .map fs ∧
      read (.map ((.text "draft", .bool true) :: fs)) = .ok tourPage := by
  have hnormal : tourPage.Normal := ⟨by decide, by decide, by decide, by decide⟩
  obtain ⟨hread, hwide⟩ := read_spelling hnormal
  obtain ⟨fs, hfs, hkeys, hentries⟩ := widened_value _ (distinct_spelling tourPage)
  refine ⟨hnormal, hread, fs, hfs, hwide _ ⟨_, rfl, ?_, hentries.mono (by simp)⟩⟩
  rw [List.map_cons, List.nodup_cons]
  refine ⟨?_, hkeys⟩
  injection hfs with hfs
  simp [← hfs, keys_entryValues]

end Page

end PagePress
