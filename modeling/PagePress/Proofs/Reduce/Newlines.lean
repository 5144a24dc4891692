import PagePress.Proofs.Inspect.Newlines
import PagePress.Proofs.Reduce.Stable

/-!
Newlines in a reduced document. The reduction leaves a space where white space was, so all newlines
that are left are line feeds, if only those in the scripts and stylesheets are (`unifyNewlines_reduce`).
-/

namespace PagePress.Markup

open Text Html

/-! ### Values -/

/-- No value of the attributes holds a carriage return. -/
def Unbroken (attrs : List Attr) : Prop := ∀ a ∈ attrs, ∀ v, a.value = some v → '\r' ∉ v

@[simp] theorem unbroken_nil : Unbroken [] := by simp [Unbroken]

@[simp] theorem unbroken_cons {a : Attr} {attrs : List Attr} :
    Unbroken (a :: attrs) ↔ (∀ v, a.value = some v → '\r' ∉ v) ∧ Unbroken attrs := by
  simp [Unbroken]

theorem Unbroken.map_unifyNewlines {attrs : List Attr} (h : Unbroken attrs) :
    attrs.map (Attr.mapValue unifyNewlines) = attrs := by
  have hone : ∀ a ∈ attrs, a.mapValue unifyNewlines = a := by
    rintro ⟨n, v⟩ ha
    cases v with
    | none => rfl
    | some v => simp only [Attr.mapValue, Option.map_some, unifyNewlines_of_not_mem (h _ ha v rfl)]
  rw [List.map_congr_left hone, List.map_id']

theorem return_not_mem_tidy (v : List Char) : '\r' ∉ tidy v := fun hm =>
  absurd (spaced_collapseFrom false _ _ hm (by decide)) (by decide)

theorem Attr.return_not_mem_of_reduced? {a b : Attr} (h : a.reduced? = some b) :
    ∀ v, b.value = some v → '\r' ∉ v := by
  obtain ⟨n, u⟩ := a
  intro v hv hm
  have htidy : ∀ w, (Attr.mapValue tidy ⟨n, u⟩).value = some w → '\r' ∉ w := by
    intro w hw
    obtain ⟨w', -, rfl⟩ := Option.map_eq_some_iff.1 hw
    exact return_not_mem_tidy w'
  unfold reduced? emptied? at h
  split at h
  · rw [← Option.some.inj h] at hv
    exact htidy v hv hm
  · split at h
    · rw [← Option.some.inj h] at hv
      exact htidy v hv hm
    · cases h
  · rename_i w hne hw
    rw [← Option.some.inj h] at hv
    obtain rfl := Option.some.inj hv
    exact htidy w hw (mem_cleanse hm)

theorem unbroken_hinting (n : List Char) (attrs : List Attr) :
    Unbroken (hinting.attrs n (attrs.filterMap Attr.reduced?)) := by
  obtain ⟨hints, hhints, hsub, -⟩ := exists_hinted n (attrs.filterMap Attr.reduced?)
  intro a ha
  rw [hhints] at ha
  rcases List.mem_append.1 ha with ha | ha
  · obtain ⟨b, -, hb⟩ := List.mem_filterMap.1 ha
    exact Attr.return_not_mem_of_reduced? hb
  · exact Attr.return_not_mem_of_reduced? (reduced?_of_mem_hints (hsub.subset ha))

/-! ### Scripts and stylesheets -/

/-- The newlines in the element are line feeds after the reduction. -/
def Element.Unified (e : Element) : Prop := e.reduced.mapText unifyNewlines = e.reduced

theorem Element.unified_of {e : Element} (ha : Unbroken e.attrs) (hc : '\r' ∉ e.reduced.content) :
    e.Unified := by
  have hattrs : Unbroken e.reduced.attrs := by
    rw [Element.reduced_attrs]
    intro b hb v hv hm
    obtain ⟨a, ha', rfl⟩ := List.mem_map.1 hb
    obtain ⟨u, hu, rfl⟩ := Option.map_eq_some_iff.1 hv
    exact ha a ha' u hu (mem_of_mem_dropNul hm)
  rw [Unified, mapText, hattrs.map_unifyNewlines, unifyNewlines_of_not_mem hc]

theorem Element.unified_script {attrs : List Attr} {s : List Char} (ha : Unbroken attrs)
    (h : Script.Complete s) : (⟨"script".toList, attrs, s⟩ : Element).Unified := by
  have hs : '\r' ∉ s := h.not_mem (by decide)
  refine Element.unified_of ha ?_
  rw [reduced_script (h.not_mem (by decide))]
  dsimp only
  split
  · exact hs
  · intro hm
    rcases Script.mem_compact hm with hm | hm | hm
    · exact hs hm
    · exact absurd hm (by decide)
    · exact absurd hm (by decide)

/-- The only white space in a compact stylesheet are spaces. -/
theorem spaced_compact (s : List Char) : Spaced (Stylesheet.compact s) := by
  have hfiller : ∀ c, Stylesheet.isFiller c → isBlank c = true → c = ' ' := by
    rintro c (rfl | rfl | rfl) <;> decide
  have hblanks : Spaced (replaceAll Stylesheet.blanks? (replaceAll Stylesheet.comment? s)) := by
    have hcollapse := replaceAll_blanks? (replaceAll Stylesheet.comment? s)
    exact hcollapse.symm ▸ spaced_collapseFrom false _
  have hpunctuation := Stylesheet.fills_punctuation.forall_replaceAll hfiller hblanks
  have hcolon := Stylesheet.fills_colon.forall_replaceAll hfiller hpunctuation
  have hsemicolon := Stylesheet.fills_lastSemicolon.forall_replaceAll hfiller hcolon
  intro c hc
  exact Stylesheet.fills_leadingZeros.forall_replaceAll hfiller hsemicolon c (Stylesheet.mem_of_mem_trim hc)

theorem return_not_mem_compact (s : List Char) : '\r' ∉ Stylesheet.compact s := fun hm =>
  absurd (spaced_compact s _ hm (by decide)) (by decide)

/-! ### Documents -/

variable {d : List (Span Element)}

theorem unifyNewlines_unlessBlank_tidy (s : List Char) :
    unifyNewlines (unlessBlank (tidy s)) = unlessBlank (tidy s) :=
  unifyNewlines_of_not_mem fun hm => return_not_mem_tidy s (mem_unlessBlank hm)

theorem mapText_reduced (h : ∀ s ∈ d, ∀ e, s.tag = .sealed e → e.Unified) :
    mapText unifyNewlines (reduced d) = reduced d := by
  rw [reduced_eq, mapText, List.map_map]
  refine List.map_congr_left fun s hs => ?_
  obtain ⟨⟨s', hs', hsame⟩, hcomment, -⟩ := mem_dropComments hs
  have htag : s.tag.reduced.mapText unifyNewlines = s.tag.reduced := by
    cases ht : s.tag with
    | comment u => exact absurd ht (hcomment u)
    | opening n attrs =>
      simp only [Tag.reduced, Tag.mapText, (unbroken_hinting _ _).map_unifyNewlines]
    | sealed e => exact congrArg Tag.sealed (h s' hs' e (hsame.trans ht))
    | _ => rfl
  simp only [Function.comp_apply, Span.reduced, htag, unifyNewlines_unlessBlank_tidy]

/-- The newlines in a reduced document are line feeds. -/
theorem unifyNewlines_reduce (hd : Reducible d) (h : ∀ s ∈ d, ∀ e, s.tag = .sealed e → e.Unified) :
    unifyNewlines (reduce (text d)) = reduce (text d) := by
  rw [reduce_text hd, piecewise_unifyNewlines.text (reduced_wellFormed hd.wellFormed), mapText_reduced h]

end PagePress.Markup
