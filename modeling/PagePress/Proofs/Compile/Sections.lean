import PagePress.Proofs.Compile.Revised
import PagePress.Proofs.Compile.SectionTags
import PagePress.Proofs.Page

/-!
Sections in a compiled document. A reader finds one container for each section that is shown, in
the order of the sections, and behind the buttons of heroes the first section of the wanted kind
(`sections_of_compile`). The reduction tidies ids wherever they stand; an id of which nothing is
left goes together with its attribute.
-/

namespace PagePress

open Text

namespace Section

/-- What a section shows, as its container says. -/
def kindName (s : Section) : String :=
  match s.block with
  | .hero _ => "hero"
  | .content _ => "content"
  | .callToAction _ => "cta"
  | .unknown kind _ => kind

def isContent (s : Section) : Bool :=
  match s.block with
  | .content _ => true
  | _ => false

def isCallToAction (s : Section) : Bool :=
  match s.block with
  | .callToAction _ => true
  | _ => false

/-- The section that a button leads to, among those that are shown. -/
def leadsTo (l : List Section) : ButtonAction → Option Section
  | .scroll => l.find? isContent
  | .form => l.find? isCallToAction
  | .link => none

end Section

namespace Markup

open Html Render Document

variable {m : Bool}

/-! ### Containers and buttons -/

/-- The attributes of the container of a section. -/
def containerAttrs (id classes kind : String) (animate : Bool) (style : Attribute) : List Attribute :=
  [.escaped "id" id, .fixed "class" (classes ++ if animate then " animate-fade-in" else ""), style,
    .escaped "data-section-id" id, .fixed "data-section-kind" kind]

/-- The id of a section as its container carries it. -/
def carried (m : Bool) (id : String) : Option (List Char) :=
  if seen m id.toList = [] then none else some (seen m id.toList)

theorem seen_eq_nil {id : String} (hid : id ≠ "") : seen m id.toList = [] ↔ m = true ∧ tidy id.toList = [] := by
  have hne : id.toList ≠ [] := fun h => hid (String.toList_inj.1 h)
  cases m <;> simp [seen, hne]

/-- The attributes of a container that tell which section it is of. -/
theorem seenValue?_container (m : Bool) {id kind : String} (classes : String) (animate : Bool)
    {style : Attribute} (hid : id ≠ "") (hs : style.name = "style") (hkind : isTidy kind = true)
    (he : escape kind.toList = kind.toList) :
    seenValue? m "id" (containerAttrs id classes kind animate style) = carried m id ∧
      seenValue? m "data-section-id" (containerAttrs id classes kind animate style) = carried m id ∧
      seenValue? m "data-section-kind" (containerAttrs id classes kind animate style) = some kind.toList := by
  have hstyle : ∀ {n : String}, n ≠ "style" → style.name ≠ n := fun h he => h (he.symm.trans hs)
  refine ⟨?_, ?_, ?_⟩
  · rw [containerAttrs, seenValue?_escaped (by decide), seenValue?_of_ne (by simp),
      seenValue?_of_ne (hstyle (by decide)), seenValue?_of_ne (by simp), seenValue?_of_ne (by simp),
      seenValue?_nil, carried]
    simp only [seen_eq_nil hid]
  · rw [containerAttrs, seenValue?_of_ne (by simp), seenValue?_of_ne (by simp),
      seenValue?_of_ne (hstyle (by decide)), seenValue?_escaped (by decide), seenValue?_of_ne (by simp),
      seenValue?_nil, carried]
    simp only [seen_eq_nil hid]
  · rw [containerAttrs, seenValue?_of_ne (by simp), seenValue?_of_ne (by simp),
      seenValue?_of_ne (hstyle (by decide)), seenValue?_of_ne (by simp), seenValue?_fixed hkind he]

/-- The attributes of the button of a hero. -/
def heroButtonAttrs (h : Hero) (c : Context) : List Attribute :=
  [.escaped "href" (buttonTarget h.buttonAction c), .fixed "class" "btn hero-button",
    buttonStyle h.buttonColor]

/-- The attributes of the plain button of a call to action. -/
def plainButtonAttrs (a : CallToAction) : List Attribute :=
  [.fixed "href" "#", .fixed "class" "btn cta-button", buttonStyle a.buttonColor]

theorem attrs_hero (id : String) (h : Hero) (c : Context) :
    nodeAttrs "section" (hero id h c) =
        [containerAttrs id ("hero-section text-" ++ h.alignment.name) "hero" c.animate (background h).1] ∧
      nodeAttrs "a" (hero id h c) = if h.buttonText.isEmpty then [] else [heroButtonAttrs h c] := by
  rw [hero]
  obtain ⟨style, overlay⟩ := background h
  cases overlay <;> cases h.buttonText.isEmpty <;>
    simp +decide [container, containerAttrs, heroButtonAttrs, nodeAttrs]

theorem attrs_content (id : String) (b : Content) (c : Context) :
    nodeAttrs "section" (content id b c) =
        [containerAttrs id ("content-section " ++ b.padding.cssClass) "content" c.animate
          (.style "background-color" b.backgroundColor)] ∧
      nodeAttrs "a" (content id b c) = [] := by
  have key : ∀ n ∈ sectionTags, treeAttrs n (contentParts b) = [] := by
    intro n hn
    have himage : ∀ url title, treeAttrs n (contentImage url title) = [] := by
      rcases mem_sectionTags.1 hn with rfl | rfl <;> simp +decide [contentImage, nodeAttrs]
    have htext : treeAttrs n (contentText b) = [] := by
      rcases mem_sectionTags.1 hn with rfl | rfl <;> simp +decide [contentText, nodeAttrs, treeAttrs_flatMap]
    unfold contentParts
    split
    · exact htext
    · split <;> simp [himage, htext]
  simp +decide [content, container, containerAttrs, nodeAttrs, key "section" (by decide),
    key "a" (by decide)]

theorem attrs_callToAction (id : String) (a : CallToAction) (c : Context) :
    nodeAttrs "section" (callToAction id a c) =
        [containerAttrs id "cta-section text-center" "cta" c.animate
          (.style "background-color" a.backgroundColor)] ∧
      nodeAttrs "a" (callToAction id a c) = if a.formEnabled then [] else [plainButtonAttrs a] := by
  have hinput : ∀ n ∈ sectionTags, ∀ id f, treeAttrs n (input id f) = [] := by
    intro n hn
    rcases mem_sectionTags.1 hn with rfl | rfl <;> simp +decide [input, nodeAttrs]
  have hform : ∀ n ∈ sectionTags, nodeAttrs n (form id a c) = [] := by
    intro n hn
    have hfields : treeAttrs n (a.formFields.enabled.flatMap (input (formId id))) = [] := by
      rw [treeAttrs_flatMap]
      simp [hinput n hn]
    rcases mem_sectionTags.1 hn with rfl | rfl <;> simp +decide [form, nodeAttrs, hfields]
  have hplain : nodeAttrs "section" (plainButton a) = [] ∧
      nodeAttrs "a" (plainButton a) = [plainButtonAttrs a] := by
    simp +decide [plainButton, plainButtonAttrs, nodeAttrs]
  cases ha : a.formEnabled <;>
    simp +decide [callToAction, container, containerAttrs, nodeAttrs, ha, hplain, hform "section" (by decide),
      hform "a" (by decide)]

theorem seenValue?_href (x : String) (as : List Attribute) :
    seenValue? m "href" (.escaped "href" ("#" ++ x) :: as) = some ('#' :: seen m x.toList) := by
  have htidy : tidy ("#" ++ x).toList = '#' :: tidy x.toList := by
    have hsolid : EndsSolid (Shield.dropNul "#".toList) := ⟨[], '#', by decide, by decide⟩
    rw [String.toList_append, tidy_append hsolid (by decide)]
    rfl
  have hne : ¬ (m = true ∧ tidy ("#" ++ x).toList = []) := by
    rw [htidy]
    simp
  rw [seenValue?_escaped (by decide), if_neg hne]
  cases m with
  | false => simp [seen]
  | true => exact congrArg some htidy

theorem seenValue?_heroButton (h : Hero) (c : Context) :
    seenValue? m "class" (heroButtonAttrs h c) = some "btn hero-button".toList := by
  rw [heroButtonAttrs, seenValue?_of_ne (by simp),
    seenValue?_fixed (by decide) (by decide)]

theorem seenValue?_plainButton (a : CallToAction) :
    seenValue? m "class" (plainButtonAttrs a) = some "btn cta-button".toList := by
  rw [plainButtonAttrs, seenValue?_of_ne (by simp),
    seenValue?_fixed (by decide) (by decide)]

/-! ### Sections in order -/

/-- The sections of a page that are shown, in order. -/
def shownSections (p : Page) : List Section := (Section.inOrder p.sections).filter Section.isKnown

theorem findSome?_content (l : List Section) :
    (l.findSome? fun s => match s.block with | .content _ => some s.id | _ => none) =
      ((l.filter Section.isKnown).find? Section.isContent).map Section.id := by
  induction l with
  | nil => rfl
  | cons s l ih =>
    obtain ⟨id, order, block⟩ := s
    cases block with
    | content b => rfl
    | _ => simpa [Section.isKnown, Section.isContent] using ih

theorem findSome?_callToAction (l : List Section) :
    (l.findSome? fun s => match s.block with | .callToAction _ => some s.id | _ => none) =
      ((l.filter Section.isKnown).find? Section.isCallToAction).map Section.id := by
  induction l with
  | nil => rfl
  | cons s l ih =>
    obtain ⟨id, order, block⟩ := s
    cases block with
    | callToAction b => rfl
    | _ => simpa [Section.isKnown, Section.isCallToAction] using ih

/-- Where the button of a hero leads: to a section that is shown. -/
theorem buttonTarget_eq (action : ButtonAction) (o : Options) (clock : ClockReading) (p : Page) :
    buttonTarget action (Compile.context o clock p (Section.inOrder p.sections)) =
      "#" ++ ((Section.leadsTo (shownSections p) action).map Section.id).getD "" := by
  cases action with
  | scroll => exact congrArg (fun x => "#" ++ Option.getD x "") (findSome?_content _)
  | form => exact congrArg (fun x => "#" ++ Option.getD x "") (findSome?_callToAction _)
  | link => rfl

/-- The address behind the button of a hero, if the section is a hero with a button. -/
def heroLink? (m : Bool) (shown : List Section) (s : Section) : Option (List Char) :=
  match s.block with
  | .hero h =>
    if h.buttonText.isEmpty then none
    else some ('#' :: ((Section.leadsTo shown h.buttonAction).map fun t => seen m t.id.toList).getD [])
  | _ => none

/-- The tags of the buttons of heroes that a reader finds in a document. -/
def heroButtons (html : List Char) : List (List Attr) :=
  (attrsOf "a".toList (read html)).filter fun as => valueOf? "class" as = some "btn hero-button".toList

/-- What the container of a section says: the section twice, and what it shows. -/
def containerFacts (attrs : List Attr) : Option (List Char) × Option (List Char) × Option (List Char) :=
  (valueOf? "id" attrs, valueOf? "data-section-id" attrs, valueOf? "data-section-kind" attrs)

theorem containerFacts_node? {c : Context} {s : Section} {n : Node} (hn : node? c s = some n)
    (hid : s.id ≠ "") :
    (nodeAttrs "section" n).map (fun as => containerFacts ((as.map attrOf).filterMap (Attr.seen? m))) =
      [(carried m s.id, carried m s.id, some s.kindName.toList)] := by
  have key : ∀ {classes kind style}, style.name = "style" → isTidy kind = true →
      escape kind.toList = kind.toList → containerFacts
        (((containerAttrs s.id classes kind c.animate style).map attrOf).filterMap (Attr.seen? m)) =
          (carried m s.id, carried m s.id, some kind.toList) := by
    intro classes kind style hs hkind he
    obtain ⟨h1, h2, h3⟩ := seenValue?_container m classes c.animate hid hs hkind he
    rw [containerFacts, ← seenValue?, h1, ← seenValue?, h2, ← seenValue?, h3]
  obtain ⟨id, order, block⟩ := s
  cases block with
  | hero h =>
    obtain rfl := Option.some.inj hn
    rw [(attrs_hero id h c).1, List.map_singleton, key (background_name h) (by decide) (by decide)]
    rfl
  | content b =>
    obtain rfl := Option.some.inj hn
    rw [(attrs_content id b c).1, List.map_singleton, key rfl (by decide) (by decide)]
    rfl
  | callToAction a =>
    obtain rfl := Option.some.inj hn
    rw [(attrs_callToAction id a c).1, List.map_singleton, key rfl (by decide) (by decide)]
    rfl
  | unknown kind data => cases hn

theorem heroLink_node? {o : Options} {clock : ClockReading} {p : Page} {s : Section} {n : Node}
    (hn : node? (Compile.context o clock p (Section.inOrder p.sections)) s = some n) :
    (((nodeAttrs "a" n).map fun as => (as.map attrOf).filterMap (Attr.seen? m)).filter
      fun as => valueOf? "class" as = some "btn hero-button".toList).map (valueOf? "href") =
        ((heroLink? m (shownSections p) s).map some).toList := by
  obtain ⟨id, order, block⟩ := s
  cases block with
  | hero h =>
    obtain rfl := Option.some.inj hn
    rw [(attrs_hero id h _).2]
    cases he : h.buttonText.isEmpty with
    | true => simp [heroLink?, he]
    | false =>
      have hclass := seenValue?_heroButton (m := m) h (Compile.context o clock p (Section.inOrder p.sections))
      have hhref : seenValue? m "href" (heroButtonAttrs h (Compile.context o clock p (Section.inOrder p.sections))) =
          some ('#' :: ((Section.leadsTo (shownSections p) h.buttonAction).map
            fun t => seen m t.id.toList).getD []) := by
        rw [heroButtonAttrs, buttonTarget_eq, seenValue?_href]
        cases Section.leadsTo (shownSections p) h.buttonAction with
        | none => cases m <;> rfl
        | some t => rfl
      rw [seenValue?] at hclass hhref
      simp only [Bool.false_eq_true, if_false, List.map_cons, List.map_nil, heroLink?, he]
      rw [List.filter_cons, if_pos (decide_eq_true hclass), List.filter_nil, List.map_singleton, hhref]
      rfl
  | content b =>
    obtain rfl := Option.some.inj hn
    rw [(attrs_content id b _).2]
    rfl
  | callToAction a =>
    obtain rfl := Option.some.inj hn
    rw [(attrs_callToAction id a _).2]
    have hclass := seenValue?_plainButton (m := m) a
    rw [seenValue?] at hclass
    cases a.formEnabled with
    | true => rfl
    | false =>
      have hother : ¬ decide (some "btn cta-button".toList = some "btn hero-button".toList) = true := by
        decide
      simp only [Bool.false_eq_true, if_false, List.map_cons, List.map_nil]
      rw [List.filter_cons, hclass, if_neg hother]
      rfl
  | unknown kind data => cases hn

section

variable {v : Vendors} {o : Options} {clock : ClockReading} {p : Page} {out : Output}

theorem treeAttrs_bodyTrees (n : String) (c : Context) (sections : List Section) :
    treeAttrs n (bodyTrees c sections) = (sections.filterMap (node? c)).flatMap (nodeAttrs n) := by
  rw [of_bodyTrees (treeAttrs_nil n) (treeAttrs_append n) rfl]
  simp

/-- The sections that a tree is found for are those that are shown. -/
theorem flatMap_node? {β : Type} {c : Context} {f : Node → List β} {g : Section → Option β}
    {l : List Section} (h : ∀ s ∈ l, ∀ n, node? c s = some n → f n = (g s).toList) :
    (l.filterMap (node? c)).flatMap f = (l.filter Section.isKnown).filterMap g := by
  induction l with
  | nil => rfl
  | cons s l ih =>
    have ih := ih fun t ht => h t (by simp [ht])
    cases hs : s.isKnown with
    | false =>
      rw [List.filterMap_cons_none (node?_eq_none hs c), ih, List.filter_cons, hs]
      rfl
    | true =>
      obtain ⟨n, hn⟩ := exists_node? hs c
      have hstep := h s (by simp) n hn
      rw [List.filterMap_cons_some hn, List.flatMap_cons, ih, hstep, List.filter_cons, hs, if_pos rfl,
        List.filterMap_cons]
      cases g s <;> rfl

/-- A reader finds one container for each section that is shown, in order. -/
theorem containers_of_compile (hids : ∀ s ∈ p.sections, s.id ≠ "") (hp : SafeValues p)
    (h : compile v o clock p = .ok out) :
    (attrsOf "section".toList (read out.html)).map containerFacts = (shownSections p).map fun s =>
      (carried o.minify s.id, carried o.minify s.id, some s.kindName.toList) := by
  rw [attrsOf_of_compile hp h (by decide), treeAttrs_bodyTrees, List.map_map, List.map_flatMap,
    flatMap_node? (g := fun s => some (carried o.minify s.id, carried o.minify s.id,
      some s.kindName.toList))]
  · rw [List.filterMap_eq_map']
    rfl
  · intro s hs n hn
    exact containerFacts_node? hn (hids s (mem_inOrder.1 hs))

/-- The buttons of heroes lead to sections that are shown. -/
theorem heroButtons_of_compile (hp : SafeValues p) (h : compile v o clock p = .ok out) :
    (heroButtons out.html).map (valueOf? "href") =
      ((shownSections p).filterMap (heroLink? o.minify (shownSections p))).map some := by
  rw [heroButtons, attrsOf_of_compile hp h (by decide), treeAttrs_bodyTrees, List.map_flatMap,
    List.filter_flatMap, List.map_flatMap, flatMap_node? fun s _ n hn => heroLink_node? hn,
    List.map_filterMap]
  rfl

/-- The sections that are shown are all sections of known kinds, in ascending order and those of
equal orders as they were given. -/
theorem shownSections_spec (p : Page) : Section.Ascending (shownSections p) ∧
    ∀ i, Section.atOrder i (shownSections p) = Section.atOrder i (p.sections.filter Section.isKnown) := by
  rw [shownSections, ← Section.inOrder_filter]
  exact ⟨Section.ascending_inOrder _, fun i => Section.atOrder_inOrder i _⟩

/-- In the document of a page whose raw values are safe a reader finds one container for each
section that is shown, and no other. The containers stand in ascending order, those of equal
orders as the sections were given. Each says what its section shows, and carries the section's id
twice; in a reduced document the id is tidied, and both attributes are gone if nothing is left of
it. The button of a hero leads to the first of them that shows what the button is for, or nowhere. -/
theorem sections_of_compile {stored : Value} (hread : Page.read stored = .ok p) (hp : SafeValues p)
    (h : compile v o clock p = .ok out) :
    ∃ shown : List Section, Section.Ascending shown ∧
      (∀ i, Section.atOrder i shown = Section.atOrder i (p.sections.filter Section.isKnown)) ∧
      (attrsOf "section".toList (read out.html)).map containerFacts = shown.map (fun s =>
        (carried o.minify s.id, carried o.minify s.id, some s.kindName.toList)) ∧
      (heroButtons out.html).map (valueOf? "href") =
        (shown.filterMap (heroLink? o.minify shown)).map some := by
  obtain ⟨hascending, horder⟩ := shownSections_spec p
  exact ⟨shownSections p, hascending, horder,
    containers_of_compile (Page.id_ne_empty_of_read hread) hp h, heroButtons_of_compile hp h⟩

end

/-- A stored page with a hero behind the block of content that its button leads to. -/
def storedLink : Value := .map [
  (.text "id", .text "launch"),
  (.text "title", .text "Tea & <Coffee>"),
  (.text "sections", .list [
    .map [(.text "id", .text "tea & more"), (.text "type", .text "content"), (.text "order", .int 2)],
    .map [(.text "id", .text "top"), (.text "type", .text "hero"), (.text "order", .int (-1)),
      (.text "data", .map [(.text "buttonText", .text "<More>")])]])]

def linkPage : Page where
  id := "launch"
  title := "Tea & <Coffee>"
  sections := [
    { id := "tea & more", order := 2, block := .content {} },
    { id := "top", order := -1, block := .hero { buttonText := "<More>" } }]

theorem read_storedLink : Page.read storedLink = .ok linkPage := rfl

theorem safeValues_linkPage : SafeValues linkPage := ⟨by decide, by decide, by decide⟩

theorem sections_of_linkPage : ∃ out, Page.read storedLink = .ok linkPage ∧
    SafeValues linkPage ∧ compile {} {} sampleClock linkPage = .ok out ∧
    ∃ shown : List Section, Section.Ascending shown ∧
      (∀ i, Section.atOrder i shown = Section.atOrder i (linkPage.sections.filter Section.isKnown)) ∧
      (attrsOf "section".toList (read out.html)).map containerFacts = shown.map (fun s =>
        (carried true s.id, carried true s.id, some s.kindName.toList)) ∧
      (heroButtons out.html).map (valueOf? "href") = (shown.filterMap (heroLink? true shown)).map some := by
  obtain ⟨out, h⟩ := exists_compile (v := {}) (o := {}) (p := linkPage) rfl sampleClock_inRange
  exact ⟨out, read_storedLink, safeValues_linkPage, h,
    sections_of_compile read_storedLink safeValues_linkPage h⟩

/-- A stored page with a section whose id is a NUL character. -/
def storedNul : Value := .map [
  (.text "id", .text "p"),
  (.text "title", .text "T"),
  (.text "sections", .list [
    .map [(.text "id", .text "\x00"), (.text "type", .text "content"), (.text "order", .int 0)]])]

def nulPage : Page where
  id := "p"
  title := "T"
  sections := [{ id := "\x00", order := 0, block := .content {} }]

/-- A container whose section has such an id carries no id at all in a reduced document. -/
theorem containers_of_nulPage : ∃ out, Page.read storedNul = .ok nulPage ∧ SafeValues nulPage ∧
    compile {} {} sampleClock nulPage = .ok out ∧
    (attrsOf "section".toList (read out.html)).map containerFacts = [(none, none, some "content".toList)] := by
  have hsafe : SafeValues nulPage := ⟨by decide, by decide, by decide⟩
  obtain ⟨out, h⟩ := exists_compile (v := {}) (o := {}) (p := nulPage) rfl sampleClock_inRange
  refine ⟨out, rfl, hsafe, h, ?_⟩
  have hshown : shownSections nulPage = nulPage.sections := by
    rw [shownSections, ← Section.eq_inOrder (r := nulPage.sections) (by simp [Section.Ascending, nulPage])
      fun _ => rfl]
    rfl
  rw [containers_of_compile (by decide) hsafe h, hshown]
  decide

end Markup

end PagePress
