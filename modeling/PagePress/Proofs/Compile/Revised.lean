import PagePress.Proofs.Compile
import PagePress.Proofs.Order
import Mathlib.Logic.Relation

/-!
Changes of a page that its document does not show. Compilation depends on the sections that are
shown, in their order, and on nothing else about the list of sections: not on where in the list a
section stands, not on the order numbers themselves, and not on sections of unknown kind
(`compile_of_revised`).
-/

namespace PagePress

namespace Section

/-- The section is of a kind that is shown. -/
def isKnown (s : Section) : Bool :=
  match s.block with
  | .unknown _ _ => false
  | _ => true

/-- The sections that are shown, without their order numbers. -/
def shown (l : List Section) : List Section := (l.filter isKnown).map (renumber fun _ => 0)

/-- A change of the sections of a page that leaves alone which sections are shown, and in which
order. -/
inductive Revised : List Section → List Section → Prop where
  /-- Other places in the list; sections of equal order numbers stay in sequence. -/
  | mixed {l r : List Section} (h : ∀ i, atOrder i l = atOrder i r) : Revised l r
  /-- New order numbers that compare as the old ones. -/
  | renumbered {f : Int → Int} (l : List Section) (hf : ∀ i j, i < j → f i < f j) :
    Revised l (l.map (renumber f))
  /-- One more section of unknown kind. -/
  | withUnknown {u : Section} (l r : List Section) (hu : u.isKnown = false) :
    Revised (l ++ r) (l ++ u :: r)

theorem exists_unknown {s : Section} (h : s.isKnown = false) : ∃ k d, s.block = .unknown k d := by
  obtain ⟨id, order, block⟩ := s
  cases block with
  | unknown k d => exact ⟨k, d, rfl⟩
  | _ => cases h

@[simp]
theorem shown_cons_unknown {s : Section} (h : s.isKnown = false) (l : List Section) :
    shown (s :: l) = shown l := by
  simp [shown, h]

@[simp]
theorem shown_cons_known {s : Section} (h : s.isKnown = true) (l : List Section) :
    shown (s :: l) = renumber (fun _ => 0) s :: shown l := by
  simp [shown, h]

theorem shown_renumber (f : Int → Int) (l : List Section) : shown (l.map (renumber f)) = shown l := by
  have hcomp : isKnown ∘ renumber f = isKnown := rfl
  simp only [shown, List.filter_map, List.map_map, hcomp]
  rfl

theorem shown_inOrder (l : List Section) :
    shown (inOrder l) = (inOrder (l.filter isKnown)).map (renumber fun _ => 0) := by
  rw [shown, inOrder_filter]

theorem Revised.shown_inOrder {l r : List Section} (h : Revised l r) :
    shown (inOrder r) = shown (inOrder l) := by
  cases h with
  | mixed h => rw [inOrder_congr h]
  | renumbered l hf => rw [inOrder_renumber hf, shown_renumber]
  | withUnknown l r hu =>
    rw [Section.shown_inOrder, Section.shown_inOrder]
    simp [hu]

theorem shown_inOrder_eq {l r : List Section} (h : Relation.EqvGen Revised l r) :
    shown (inOrder r) = shown (inOrder l) := by
  induction h with
  | rel l r h => exact h.shown_inOrder
  | refl l => rfl
  | symm l r _ ih => exact ih.symm
  | trans l m r _ _ hl hr => exact hr.trans hl

end Section

namespace Markup

open Text Html Render Document

/-! ### What compilation reads -/

theorem node?_renumber (c : Context) (f : Int → Int) (s : Section) :
    node? c (s.renumber f) = node? c s := rfl

theorem node?_eq_none {s : Section} (h : s.isKnown = false) (c : Context) : node? c s = none := by
  obtain ⟨k, d, hb⟩ := s.exists_unknown h
  rw [node?, hb]

theorem exists_node? {s : Section} (h : s.isKnown = true) (c : Context) : ∃ n, node? c s = some n := by
  obtain ⟨id, order, block⟩ := s
  cases block with
  | unknown k d => cases h
  | _ => exact ⟨_, rfl⟩

theorem form?_eq_none {s : Section} (h : s.isKnown = false) : s.form? = none := by
  obtain ⟨k, d, hb⟩ := s.exists_unknown h
  rw [Section.form?, hb]

/-- What is found for sections that are shown is found without regard to the others. -/
theorem filterMap_shown {α : Type} {f : Section → Option α}
    (hf : ∀ s, f (s.renumber fun _ => 0) = f s) (hknown : ∀ s, s.isKnown = false → f s = none)
    (l : List Section) : (Section.shown l).filterMap f = l.filterMap f := by
  induction l with
  | nil => rfl
  | cons s l ih =>
    cases hs : s.isKnown with
    | false => rw [Section.shown_cons_unknown hs, List.filterMap_cons_none (hknown s hs), ih]
    | true => rw [Section.shown_cons_known hs, List.filterMap_cons, List.filterMap_cons, hf, ih]

theorem body_shown (c : Context) (l : List Section) :
    Render.body c (Section.shown l) = Render.body c l := by
  rw [← textAll_bodyTrees, ← textAll_bodyTrees, bodyTrees, bodyTrees,
    filterMap_shown (node?_renumber c _) fun s hs => node?_eq_none hs c]

/-- What is looked for first among the sections that are shown. -/
theorem findSome?_shown {α : Type} {f : Section → Option α}
    (hf : ∀ s, f (s.renumber fun _ => 0) = f s) (hknown : ∀ s, s.isKnown = false → f s = none)
    (l : List Section) : (Section.shown l).findSome? f = l.findSome? f := by
  rw [← List.head?_filterMap, ← List.head?_filterMap, filterMap_shown hf hknown]

theorem context_shown (o : Options) (clock : ClockReading) (p : Page) (l : List Section) :
    Compile.context o clock p (Section.shown l) = Compile.context o clock p l := by
  rw [Compile.context, Compile.context, Context.ofSections, Context.ofSections]
  congr 1
  all_goals
    refine findSome?_shown (fun _ => rfl) (fun s hs => ?_) l
    obtain ⟨k, d, hb⟩ := s.exists_unknown hs
    rw [hb]

theorem page_shown (form : FormChoice) (l : List Section) :
    Script.page form (Section.shown l) = Script.page form l := by
  rw [Script.page, Script.page]
  congr 1
  induction l with
  | nil => rfl
  | cons s l ih =>
    cases hs : s.isKnown with
    | false =>
      rw [Section.shown_cons_unknown hs, ih, List.filterMapM_cons, form?_eq_none hs]
      rfl
    | true =>
      rw [Section.shown_cons_known hs, List.filterMapM_cons, List.filterMapM_cons, ih]
      rfl

/-! ### Compilation -/

variable {v : Vendors} {o : Options} {clock : ClockReading} {p : Page}

theorem parts_eq (v : Vendors) (o : Options) (clock : ClockReading) (p : Page) :
    Compile.parts v o clock p = (do
      let sections := Section.shown (Section.inOrder p.sections)
      let script ← Script.page o.form sections
      let snippets := Snippets.render v o.analytics o.adsense
      return {
        body := Render.body (Compile.context o clock p sections) sections
        css := Stylesheet.pageText p.theme o.animations
        script
        headSnippets := snippets.head
        bodySnippets := snippets.body }) := by
  simp only [page_shown, context_shown, body_shown]
  rfl

/-- Pages that differ in their sections only, and show the same ones, compile alike. -/
theorem compile_congr {l r : List Section}
    (h : Section.shown (Section.inOrder r) = Section.shown (Section.inOrder l)) :
    compile v o clock { p with sections := r } = compile v o clock { p with sections := l } := by
  have hparts : Compile.parts v o clock { p with sections := r } =
      Compile.parts v o clock { p with sections := l } := by
    rw [parts_eq, parts_eq]
    dsimp only
    rw [h]
    rfl
  rw [compile, compile, hparts]
  rfl

/-- Changes of a page's sections that leave alone which of them are shown, and in which order,
leave alone what the page compiles to: its document, size, warnings and record, or the error. -/
theorem compile_of_revised {l : List Section} (h : Relation.EqvGen Section.Revised p.sections l)
    (v : Vendors) (o : Options) (clock : ClockReading) :
    compile v o clock { p with sections := l } = compile v o clock p :=
  compile_congr (Section.shown_inOrder_eq h)

/-- The sections of the sample page the other way round, with new order numbers, after a video. -/
def revisedSections : List Section :=
  { id := "clip", order := 7, block := .unknown "video" [] } ::
    samplePage.sections.reverse.map (Section.renumber fun i => 2 * i)

theorem revised_samplePage : Relation.EqvGen Section.Revised samplePage.sections revisedSections := by
  have hmixed : Section.Revised samplePage.sections samplePage.sections.reverse := by
    refine .mixed fun i => ?_
    by_cases h1 : i = 1
    · subst h1
      rfl
    · have h1 : (1 : Int) ≠ i := fun h => h1 h.symm
      simp [samplePage, Section.atOrder, List.filter_cons, h1]
  have hdouble : ∀ i j : Int, i < j → 2 * i < 2 * j := fun i j h => by omega
  exact .trans _ _ _ (.rel _ _ hmixed)
    (.trans _ _ _ (.rel _ _ (.renumbered _ hdouble)) (.rel _ _ (.withUnknown [] _ rfl)))

theorem compile_revisedSections : Relation.EqvGen Section.Revised samplePage.sections revisedSections ∧
    compile {} {} sampleClock { samplePage with sections := revisedSections } =
      compile {} {} sampleClock samplePage :=
  ⟨revised_samplePage, compile_of_revised revised_samplePage {} {} sampleClock⟩

end Markup

end PagePress
