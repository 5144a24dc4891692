import PagePress.Proofs.Inspect
import PagePress.Proofs.Markup.Texts
import PagePress.Proofs.Text.Lines

/-!
The inspection of a document that is read from a file, where all newlines are line feeds. A document
that has what the inspection asks for still has it, and its addresses are found as before, so only the
size may differ (`inspect_unifyNewlines`).
-/

namespace PagePress.Markup

open Text Html

/-- What is found about addresses is found whatever the newlines are. -/
theorem refusedAddresses_unifyNewlines (s : List Char) :
    Inspect.refusedAddresses (unifyNewlines s) = Inspect.refusedAddresses s := by
  simp only [Inspect.refusedAddresses]
  rw [containsText_lower_unifyNewlines (by decide) (by decide) (by decide),
    containsText_lower_unifyNewlines (by decide) (by decide) (by decide)]

theorem piecewise_unifyNewlines : Piecewise unifyNewlines where
  append := unifyNewlines_append
  fixed _ hr _ := unifyNewlines_of_not_mem hr
  mem _ _ := mem_unifyNewlines

theorem Labelled.unifyNewlines {attrs : List Attr} (h : Labelled attrs) :
    Labelled (attrs.map (Attr.mapValue unifyNewlines)) where
  placeholder := by
    obtain ⟨a, ha, hn, hv⟩ := h.placeholder
    exact ⟨_, List.mem_map_of_mem ha, hn, by simpa [Attr.mapValue] using hv⟩
  values := by
    intro b hb w hw
    obtain ⟨a, ha, rfl⟩ := List.mem_map.1 hb
    obtain ⟨v, hv, rfl⟩ := Option.map_eq_some_iff.1 hw
    obtain ⟨hquote, c, hc, hne⟩ := h.values a ha v hv
    refine ⟨piecewise_unifyNewlines.not_mem hquote (by decide), _, mem_unifyNewlines_of_mem hc, ?_⟩
    split
    · decide
    · exact hne

theorem Accessible.unifyNewlines {n : List Char} {attrs : List Attr} (h : Accessible n attrs) :
    Accessible n (attrs.map (Attr.mapValue unifyNewlines)) where
  image hn := by
    obtain ⟨a, ha, hname⟩ := h.image hn
    exact ⟨_, List.mem_map_of_mem ha, hname⟩
  input hn := (h.input hn).unifyNewlines

theorem Balanced.mapText {ts : List (Tag Element)} (h : Balanced ts) (f : List Char → List Char) :
    Balanced (ts.map (Tag.mapText f)) := by
  have hopened : ∀ t : Tag Element, (t.mapText f).opened = t.opened := by
    intro t
    cases t <;> rfl
  have hclosed : ∀ t : Tag Element, (t.mapText f).closed = t.closed := by
    intro t
    cases t <;> rfl
  intro n
  simp only [List.flatMap_map, hopened, hclosed]
  exact h n

variable {d : List (Span Element)}

theorem nil_mem_attrsOf_mapText {n : List Char} (h : [] ∈ attrsOf n d) (f : List Char → List Char) :
    [] ∈ attrsOf n (mapText f d) := by
  rw [attrsOf_mapText]
  exact List.mem_map.2 ⟨[], h, rfl⟩

/-- Newlines of one kind keep what the inspection asks for. -/
theorem Inspectable.unifyNewlines (h : Inspectable d) : Inspectable (mapText unifyNewlines d) where
  wellFormed := piecewise_unifyNewlines.mapText_wellFormed h.wellFormed
  first s t hs := by
    rw [mapText, List.head?_map] at hs
    obtain ⟨s', hs', rfl⟩ := Option.map_eq_some_iff.1 hs
    exact Tag.mapText_ne_comment (fun u => h.first s' u hs') t
  doctype := by
    rw [tags_mapText]
    exact List.mem_map.2 ⟨_, h.doctype, rfl⟩
  html := by
    rw [attrsOf_mapText]
    simpa using h.html
  head := nil_mem_attrsOf_mapText h.head _
  body := nil_mem_attrsOf_mapText h.body _
  title := nil_mem_attrsOf_mapText h.title _
  viewport := by
    obtain ⟨attrs, hattrs⟩ := h.viewport
    refine ⟨attrs.map (Attr.mapValue Text.unifyNewlines), ?_⟩
    rw [attrsOf_mapText]
    refine List.mem_map.2 ⟨_, hattrs, ?_⟩
    have hviewport : Text.unifyNewlines "viewport".toList = "viewport".toList :=
      unifyNewlines_of_not_mem (by decide)
    simp only [List.map_cons, Attr.mapValue, Option.map_some, hviewport]
  balanced := by
    rw [tags_mapText]
    exact h.balanced.mapText _
  accessible n attrs hattrs := by
    rw [attrsOf_mapText] at hattrs
    obtain ⟨attrs', hattrs', rfl⟩ := List.mem_map.1 hattrs
    exact (h.accessible n attrs' hattrs').unifyNewlines

/-- What the inspection may find in such a document once its newlines are of one kind. -/
theorem inspect_unifyNewlines (h : Inspectable d) :
    inspect (Text.unifyNewlines (text d)) =
      Inspect.oversize (Text.unifyNewlines (text d)) ++ Inspect.refusedAddresses (text d) := by
  rw [piecewise_unifyNewlines.text h.wellFormed, inspect_text h.unifyNewlines,
    ← piecewise_unifyNewlines.text h.wellFormed, refusedAddresses_unifyNewlines]

end PagePress.Markup
