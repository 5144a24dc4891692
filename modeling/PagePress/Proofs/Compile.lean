import PagePress.Proofs.Document.Reducible

/-!
The compilation of a page as a tree. Every page compiles to the document of an outline
(`html_eq`). Its body is a proper tree as soon as the raw values of the page hold no marks of a
tag; then the whole document is well formed, and its reduction can be followed tag by tag.
-/

namespace PagePress.Markup

open Text Html Render Document

/-! ### Sections -/

/-- The sections that are shown as trees, on lines of their own. -/
def bodyTrees (c : Context) (sections : List Section) : List Node :=
  List.intercalate [.line 0] ((sections.filterMap (node? c)).map fun n => [n])

theorem textAll_intercalate (nss : List (List Node)) :
    Node.textAll (List.intercalate [.line 0] nss) = List.intercalate ['\n'] (nss.map Node.textAll) := by
  have hline : Node.textAll [.line 0] = ['\n'] := by decide
  rw [map_intercalate rfl textAll_append, hline]

theorem ne_nil_of_node? {c : Context} {s : Section} {n : Node} (h : node? c s = some n) :
    n.text ≠ [] := by
  unfold node? at h
  split at h
  · obtain rfl := Option.some.inj h
    simp [hero, container, Node.text, Node.openingText]
  · obtain rfl := Option.some.inj h
    simp [content, container, Node.text, Node.openingText]
  · obtain rfl := Option.some.inj h
    simp [callToAction, container, Node.text, Node.openingText]
  · cases h

theorem textAll_bodyTrees (c : Context) (sections : List Section) :
    Node.textAll (bodyTrees c sections) = Render.body c sections := by
  rw [bodyTrees, textAll_intercalate, Render.body]
  congr 1
  induction sections with
  | nil => rfl
  | cons s sections ih =>
    rw [List.map_cons]
    cases hn : node? c s with
    | none =>
      have hf : fragment c s = [] := by simp [fragment, hn]
      rw [List.filterMap_cons_none hn, ih, hf]
      rfl
    | some n =>
      have hf : fragment c s = n.text := by simp [fragment, hn]
      have hne := ne_nil_of_node? hn
      rw [List.filterMap_cons_some hn, List.map_cons, List.map_cons, ih, hf]
      simp [Node.textAll, hne]

theorem proper_node? {c : Context} {s : Section} {n : Node} (h : node? c s = some n)
    (hraw : ∀ v ∈ rawValues s.block, IsValue v.toList) : Proper n := by
  unfold node? at h
  split at h
  · rename_i hb
    obtain rfl := Option.some.inj h
    exact proper_hero (hb ▸ hraw)
  · rename_i hb
    obtain rfl := Option.some.inj h
    exact proper_content (hb ▸ hraw)
  · rename_i hb
    obtain rfl := Option.some.inj h
    exact proper_callToAction (hb ▸ hraw)
  · cases h

theorem mem_bodyTrees {c : Context} {sections : List Section} {n : Node}
    (h : n ∈ bodyTrees c sections) : n = .line 0 ∨ ∃ s ∈ sections, node? c s = some n := by
  rcases mem_intercalate h with h | ⟨ns, hns, h⟩
  · exact .inl (List.mem_singleton.1 h)
  · obtain ⟨m, hm, rfl⟩ := List.mem_map.1 hns
    obtain rfl := List.mem_singleton.1 h
    exact .inr (List.mem_filterMap.1 hm)

theorem mem_bodyTrees_of_node? {c : Context} {sections : List Section} {s : Section} {n : Node}
    (hs : s ∈ sections) (h : node? c s = some n) : n ∈ bodyTrees c sections := by
  have hn : [n] ∈ (sections.filterMap (node? c)).map fun n => [n] :=
    List.mem_map.2 ⟨n, List.mem_filterMap.2 ⟨s, hs, h⟩, rfl⟩
  obtain ⟨xs, ys, -, hsplit⟩ := exists_intercalate_eq (s := [Node.line 0]) hn
  rw [bodyTrees, hsplit]
  simp

/-- What is read off the trees of some sections piece by piece is read off one tree after the
other. -/
theorem of_bodyTrees {α : Type} {f : List Node → List α} (hnil : f [] = [])
    (happend : ∀ ns ms, f (ns ++ ms) = f ns ++ f ms) (hline : f [.line 0] = []) (c : Context)
    (sections : List Section) :
    f (bodyTrees c sections) = (sections.filterMap (node? c)).flatMap fun n => f [n] := by
  rw [bodyTrees]
  induction sections.filterMap (node? c) with
  | nil => exact hnil
  | cons n ns ih =>
    cases ns with
    | nil => simp
    | cons m ns =>
      rw [List.map_cons] at ih
      rw [List.map_cons, List.map_cons, List.intercalate_cons_cons, happend, happend, hline, ih]
      simp

theorem mem_inOrder {sections : List Section} {s : Section} :
    s ∈ Section.inOrder sections ↔ s ∈ sections := List.mem_mergeSort

/-! ### Snippets -/

/-- The analytics scripts and the advertiser's tag at the end of the head. -/
def headTrees (v : Vendors) (o : Options) : List Node :=
  let measurement := if o.analytics then given? v.analyticsId else none
  let client := if o.adsense then given? v.adsenseClientId else none
  List.intercalate [.line 0]
    (measurement.toList.map Snippet.analytics ++ client.toList.map Snippet.adsenseHead)

/-- The advertiser's scripts at the end of the body. -/
def footTrees (v : Vendors) (o : Options) : List Node :=
  ((if o.adsense then given? v.adsenseClientId else none).map Snippet.adsenseBody).getD []

theorem textAll_headTrees (v : Vendors) (o : Options) :
    Node.textAll (headTrees v o) = (Snippets.render v o.analytics o.adsense).head := by
  rw [headTrees, textAll_intercalate]
  rfl

theorem textAll_footTrees (v : Vendors) (o : Options) :
    Node.textAll (footTrees v o) = (Snippets.render v o.analytics o.adsense).body := by
  rw [footTrees, Snippets.render]
  cases (if o.adsense then given? v.adsenseClientId else none) <;> rfl

theorem lt_not_mem_literal (id : String) : '<' ∉ Json.literal id.toList := fun hm =>
  absurd (Json.isWritten_literal _ _ hm) (by decide)

set_option maxRecDepth 20000 in
theorem proper_analytics (id : String) : ProperAll (Snippet.analytics id) := by
  have hloader : Proper (.element "script"
      [.bare "async",
        ⟨"src", some [.fixed "https://www.googletagmanager.com/gtag/js?id=", .address id]⟩] []) :=
    Outline.proper_sealed (by simp) (by simp +decide [Piece.text, isValue_escape]) (by simp [Node.textAll])
  simp only [Snippet.analytics, properAll_cons, properAll_nil, hloader, proper_line, true_and, and_true]
  refine Outline.proper_sealed (by simp) (by simp) ?_
  simp only [Node.textAll, Node.fixed, Node.text, Piece.text, List.mem_append, not_or,
    List.append_nil]
  exact ⟨not_mem_toList rfl (by decide), lt_not_mem_literal id, not_mem_toList rfl (by decide)⟩

set_option maxRecDepth 20000 in
theorem proper_adsenseBody (id : String) : ProperAll (Snippet.adsenseBody id) := by
  have hloader : Proper (.element "script"
      [.bare "async",
        ⟨"src", some [.fixed "https://pagead2.googlesyndication.com/pagead/js/adsbygoogle.js?client=",
          .address id]⟩,
        .fixed "crossorigin" "anonymous"] []) :=
    Outline.proper_sealed (by simp) (by simp +decide [Piece.text, isValue_escape]) (by simp [Node.textAll])
  simp only [Snippet.adsenseBody, properAll_cons, properAll_nil, hloader, proper_line, true_and,
    and_true]
  refine Outline.proper_sealed (by simp) (by simp) ?_
  simp only [Node.textAll, Node.fixed, Node.text, Piece.text, List.mem_append, not_or,
    List.append_nil]
  exact ⟨not_mem_toList rfl (by decide), lt_not_mem_literal id, not_mem_toList rfl (by decide)⟩

theorem proper_adsenseHead (id : String) : ProperAll (Snippet.adsenseHead id) := by
  simp only [Snippet.adsenseHead, properAll_cons, properAll_nil, and_true]
  exact Outline.proper_metaVoid (by simp +decide)

theorem proper_headTrees (v : Vendors) (o : Options) : ProperAll (headTrees v o) := by
  rw [properAll_iff]
  intro n hn
  rcases mem_intercalate hn with hn | ⟨ns, hns, hn⟩
  · rw [List.mem_singleton.1 hn]
    exact proper_line 0
  · rcases List.mem_append.1 hns with hns | hns
    · obtain ⟨id, -, rfl⟩ := List.mem_map.1 hns
      exact properAll_iff.1 (proper_analytics id) n hn
    · obtain ⟨id, -, rfl⟩ := List.mem_map.1 hns
      exact properAll_iff.1 (proper_adsenseHead id) n hn

theorem proper_footTrees (v : Vendors) (o : Options) : ProperAll (footTrees v o) := by
  unfold footTrees
  cases (if o.adsense then given? v.adsenseClientId else none) with
  | none => trivial
  | some id => exact proper_adsenseBody id

/-! ### Tags of a page -/

theorem treeAttrs_flatMap {α : Type} (n : String) (f : α → List Node) (as : List α) :
    treeAttrs n (as.flatMap f) = as.flatMap fun a => treeAttrs n (f a) := by
  induction as with
  | nil => rfl
  | cons a as ih => simp [ih]

theorem mem_treeAttrs {n : String} {ns : List Node} {attrs : List Attribute} :
    attrs ∈ treeAttrs n ns ↔ ∃ m ∈ ns, attrs ∈ nodeAttrs n m := by
  induction ns with
  | nil => simp
  | cons m ns ih => simp [ih]

@[simp] theorem nodeAttrs_line (n : String) (i : Nat) : nodeAttrs n (.line i) = [] := rfl

@[simp] theorem nodeAttrs_escaped (n s : String) : nodeAttrs n (.escaped s) = [] := rfl

/-- No section has metadata in it. -/
theorem metas_node? {c : Context} {s : Section} {n : Node} (h : node? c s = some n) :
    nodeAttrs "meta" n = [] := by
  unfold node? at h
  split at h
  · rename_i b hb
    obtain rfl := Option.some.inj h
    rw [hero]
    generalize background b = style
    obtain ⟨style, overlay⟩ := style
    cases overlay <;> cases b.buttonText.isEmpty <;> simp +decide [container, nodeAttrs]
  · rename_i b hb
    obtain rfl := Option.some.inj h
    have himage : ∀ url title, treeAttrs "meta" (contentImage url title) = [] := by
      simp +decide [contentImage, nodeAttrs]
    have htext : treeAttrs "meta" (contentText b) = [] := by
      simp +decide [contentText, nodeAttrs, treeAttrs_flatMap]
    have hparts : treeAttrs "meta" (contentParts b) = [] := by
      unfold contentParts
      split
      · exact htext
      · split <;> simp [himage, htext]
    simp +decide [content, container, nodeAttrs, hparts]
  · rename_i a hb
    obtain rfl := Option.some.inj h
    have hinput : ∀ id field, treeAttrs "meta" (Render.input id field) = [] := by
      simp +decide [Render.input, nodeAttrs]
    have hform : nodeAttrs "meta" (if a.formEnabled then form s.id a c else plainButton a) = [] := by
      split <;> simp +decide [form, plainButton, nodeAttrs, treeAttrs_flatMap, hinput]
    simp +decide [callToAction, container, nodeAttrs, hform]
  · cases h

theorem metas_bodyTrees (c : Context) (sections : List Section) :
    treeAttrs "meta" (bodyTrees c sections) = [] := by
  rw [List.eq_nil_iff_forall_not_mem]
  intro attrs hattrs
  obtain ⟨n, hn, hattrs⟩ := mem_treeAttrs.1 hattrs
  rcases mem_bodyTrees hn with rfl | ⟨s, -, hs⟩
  · cases hattrs
  · rw [metas_node? hs] at hattrs
    cases hattrs

theorem metas_headTrees (v : Vendors) (o : Options) : ∃ id, List.Sublist
    (treeAttrs "meta" (headTrees v o)) [[.fixed "name" accountKey, .escaped "content" id]] := by
  have hanalytics : ∀ id, treeAttrs "meta" (Snippet.analytics id) = [] := by
    simp +decide [Snippet.analytics, nodeAttrs]
  have hadsense : ∀ id, treeAttrs "meta" (Snippet.adsenseHead id) =
      [[.fixed "name" accountKey, .escaped "content" id]] := by
    simp [Snippet.adsenseHead, nodeAttrs, accountKey]
  unfold headTrees
  cases (if o.analytics then given? v.analyticsId else none) with
  | none =>
    cases (if o.adsense then given? v.adsenseClientId else none) with
    | none => exact ⟨"", by simp⟩
    | some id => exact ⟨id, by simp [hadsense]⟩
  | some measurement =>
    cases (if o.adsense then given? v.adsenseClientId else none) with
    | none => exact ⟨"", by simp [hanalytics]⟩
    | some id => exact ⟨id, by simp [hanalytics, hadsense]⟩

theorem metas_footTrees (v : Vendors) (o : Options) : treeAttrs "meta" (footTrees v o) = [] := by
  unfold footTrees
  cases (if o.adsense then given? v.adsenseClientId else none) <;>
    simp +decide [Snippet.adsenseBody, nodeAttrs]

/-! ### Pages -/

/-- The document of a page with a given script. -/
def pageOutline (v : Vendors) (o : Options) (clock : ClockReading) (p : Page) (script : List Char) :
    Outline where
  head := .ofPage p
  headSnippets := headTrees v o
  css := Stylesheet.pageText p.theme o.animations
  body := bodyTrees (Compile.context o clock p (Section.inOrder p.sections)) (Section.inOrder p.sections)
  script := script
  bodySnippets := footTrees v o

variable {v : Vendors} {o : Options} {clock : ClockReading} {p : Page}

/-- What compiles has a script, and its document is the one of an outline. -/
theorem compile_eq {out : Output} (h : compile v o clock p = .ok out) :
    ∃ script, Script.page o.form (Section.inOrder p.sections) = .ok script ∧
      out.html = (if o.minify then reduce (text (pageOutline v o clock p script).document)
        else text (pageOutline v o clock p script).document) ∧
      out.warnings = Compile.warnings o out.html := by
  obtain ⟨parts, hparts, h⟩ := Script.exists_of_bind_eq_ok h
  have hparts : Compile.parts v o clock p = .ok parts := by
    cases hp : Compile.parts v o clock p with
    | error e => simp [hp, Except.mapError] at hparts
    | ok q => simpa [hp, Except.mapError] using hparts
  obtain ⟨script, hscript, hrest⟩ := Script.exists_of_bind_eq_ok hparts
  obtain rfl := Except.ok.inj hrest
  dsimp only at h
  generalize hhtml : Compile.html o p _ = html at h
  have hout : out.html = html ∧ out.warnings = Compile.warnings o out.html := by
    split at h
    · obtain rfl := Except.ok.inj h
      exact ⟨rfl, rfl⟩
    · cases h
  refine ⟨script, hscript, ?_, hout.2⟩
  rw [hout.1, ← hhtml, Compile.html, Outline.text_document]
  simp only [pageOutline, Outline.parts, textAll_bodyTrees, textAll_headTrees, textAll_footTrees]

/-- The size and the key that a compilation answers with are those of its document. -/
theorem measures_of_compile {out : Output} (h : compile v o clock p = .ok out) :
    out.size = byteSize out.html ∧ out.checksum = Checksum.checksum out.html := by
  obtain ⟨parts, -, h⟩ := Script.exists_of_bind_eq_ok h
  dsimp only at h
  split at h
  · obtain rfl := Except.ok.inj h
    exact ⟨rfl, rfl⟩
  · cases h

/-- With a clock in range, every page that has a script compiles. -/
theorem exists_compile_of_page {script : List Char}
    (hscript : Script.page o.form (Section.inOrder p.sections) = .ok script)
    (hc : (isoTimestamp? clock).isSome = true) : ∃ out, compile v o clock p = .ok out := by
  obtain ⟨generatedAt, ht⟩ := Option.isSome_iff_exists.1 hc
  obtain ⟨parts, hparts⟩ : ∃ parts, Compile.parts v o clock p = .ok parts :=
    Script.exists_bind hscript ⟨_, rfl⟩
  have hmapped : (Compile.parts v o clock p).mapError CompileError.unknownBackend = .ok parts := by
    rw [hparts]
    rfl
  refine Script.exists_bind hmapped ?_
  dsimp only
  rw [ht]
  exact ⟨_, rfl⟩

/-- With a backend that is known and a clock in range, every page compiles. -/
theorem exists_compile {backend : FormBackend} (hb : o.form.resolve = .ok backend)
    (hc : (isoTimestamp? clock).isSome = true) : ∃ out, compile v o clock p = .ok out := by
  obtain ⟨script, hscript⟩ := Script.exists_page hb (Section.inOrder p.sections)
  exact exists_compile_of_page hscript hc

/-- The values of a page that are inserted as they are: those of its sections, and the colours of
its theme. -/
structure SafeValues (p : Page) : Prop where
  sections : ∀ s ∈ p.sections, ∀ v ∈ rawValues s.block, IsValue v.toList
  primary : IsValue p.theme.primaryColor.toList
  secondary : IsValue p.theme.secondaryColor.toList

instance (p : Page) : Decidable (SafeValues p) :=
  decidable_of_iff ((∀ s ∈ p.sections, ∀ v ∈ rawValues s.block, IsValue v.toList) ∧
      IsValue p.theme.primaryColor.toList ∧ IsValue p.theme.secondaryColor.toList)
    ⟨fun h => ⟨h.1, h.2.1, h.2.2⟩, fun h => ⟨h.sections, h.primary, h.secondary⟩⟩

theorem unmarked_of_isValue {s : String} (h : IsValue s.toList) : Stylesheet.Unmarked s :=
  fun hm => absurd (h _ hm) (by decide)

theorem wellFormed_pageOutline (h : SafeValues p) {script : List Char}
    (hs : Script.page o.form (Section.inOrder p.sections) = .ok script) :
    (pageOutline v o clock p script).WellFormed where
  headSnippets := proper_headTrees v o
  css := Stylesheet.not_mem_pageText (unmarked_of_isValue h.primary) (unmarked_of_isValue h.secondary) _
  body := by
    rw [properAll_iff]
    intro n hn
    rcases mem_bodyTrees hn with rfl | ⟨s, hs, hn⟩
    · exact proper_line 0
    · exact proper_node? hn (h.sections s (mem_inOrder.1 hs))
  script := (Script.complete_page hs).not_mem (by decide)
  bodySnippets := proper_footTrees v o

theorem fewMetas_pageOutline (script : List Char) : (pageOutline v o clock p script).FewMetas where
  headSnippets := metas_headTrees v o
  body := metas_bodyTrees _ _
  bodySnippets := metas_footTrees v o

/-- A page with a hero and a contact form, whose texts look like markup. -/
def samplePage : Page where
  id := "launch"
  title := "Tea & <Coffee>"
  sections := [
    { id := "contact", order := 2,
      block := .callToAction { title := "Write to us", formEnabled := true } },
    { id := "top", order := 1, block := .hero { headline := "<b alt=''>Hello</b>" } }]

/-- A clock at the beginning of the year 2024. -/
def sampleClock : ClockReading where
  year := 2024
  month := 1
  day := 1

theorem safeValues_samplePage : SafeValues samplePage where
  sections := by decide
  primary := by decide
  secondary := by decide

theorem sampleClock_inRange : (isoTimestamp? sampleClock).isSome = true := by decide

end PagePress.Markup
