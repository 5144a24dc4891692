import PagePress.Proofs.Markup.Reference
import PagePress.Proofs.Script.Page
import PagePress.Proofs.Script.Respace
import PagePress.Proofs.Stylesheet.Dense

/-!
Reducing a document once more. A reduced document is not reduced any further when none of its tags
is (`reduce_reduce`): a tag stands firm when its tidied values hold nothing that looks like an empty
attribute, and a script or a stylesheet when its compact text is compact.
-/

namespace PagePress.Markup

open Text Html

/-! ### Attributes -/

theorem Attr.mapValue_tidy (a : Attr) : (a.mapValue tidy).mapValue tidy = a.mapValue tidy := by
  obtain ⟨n, v⟩ := a
  cases v with
  | none => rfl
  | some v => simp only [mapValue, Option.map_some, tidy_tidy]

/-- The tidied value of the attribute, if it has one, is steady. -/
def Attr.Firm (a : Attr) : Prop := ∀ v, a.value = some v → Steady (tidy v)

/-- A firm attribute that stays is only tidied. -/
theorem Attr.Firm.eq_of_reduced? {a b : Attr} (h : a.Firm) (hb : a.reduced? = some b) :
    b = a.mapValue tidy := by
  unfold reduced? emptied? at hb
  split at hb
  · exact (Option.some.inj hb).symm
  · split at hb
    · exact (Option.some.inj hb).symm
    · cases hb
  · rename_i u hne hu
    obtain ⟨v, hv, rfl⟩ := Option.map_eq_some_iff.1 hu
    rw [cleanse_of_steady (h v hv)] at hb
    rw [← Option.some.inj hb, mapValue, hv]
    rfl

theorem Attr.Firm.reduced?_of_reduced? {a b : Attr} (h : a.Firm) (hb : a.reduced? = some b) :
    b.reduced? = some b := by
  obtain rfl := h.eq_of_reduced? hb
  rw [reduced?, mapValue_tidy]
  exact hb

/-- The hints that images get are as tidy as can be. -/
theorem reduced?_of_mem_hints {a : Attr} (h : a ∈ [lazyLoading, asyncDecoding]) : a.reduced? = some a := by
  simp only [List.mem_cons, List.not_mem_nil, or_false] at h
  rcases h with rfl | rfl
  · exact Attr.reduced?_value (by decide) (by decide) (by decide)
  · exact Attr.reduced?_value (by decide) (by decide) (by decide)

theorem hinting_hinting (n : List Char) (attrs : List Attr) :
    hinting.attrs n (hinting.attrs n attrs) = hinting.attrs n attrs := by
  by_cases hn : n = "img".toList
  · simp only [hinting, if_pos hn, hinted_hinted]
  · simp only [hinting, if_neg hn]

/-- Reduced attributes are not reduced any further. -/
theorem hinting_filterMap_reduced? {n : List Char} {attrs : List Attr} (h : ∀ a ∈ attrs, a.Firm) :
    hinting.attrs n ((hinting.attrs n (attrs.filterMap Attr.reduced?)).filterMap Attr.reduced?) =
      hinting.attrs n (attrs.filterMap Attr.reduced?) := by
  have hkept : ∀ as : List Attr, (∀ a ∈ as, a.reduced? = some a) → as.filterMap Attr.reduced? = as := by
    intro as has
    rw [List.filterMap_congr has, List.filterMap_some]
  have hall : ∀ a ∈ hinting.attrs n (attrs.filterMap Attr.reduced?), a.reduced? = some a := by
    obtain ⟨hints, hhints, hsub, -⟩ := exists_hinted n (attrs.filterMap Attr.reduced?)
    intro a ha
    rw [hhints] at ha
    rcases List.mem_append.1 ha with ha | ha
    · obtain ⟨b, hb, hba⟩ := List.mem_filterMap.1 ha
      exact (h b hb).reduced?_of_reduced? hba
    · exact reduced?_of_mem_hints (hsub.subset ha)
  rw [hkept _ hall, hinting_hinting]

/-! ### Scripts and stylesheets -/

theorem map_dropNul_map_dropNul (attrs : List Attr) :
    (attrs.map (Attr.mapValue Shield.dropNul)).map (Attr.mapValue Shield.dropNul) =
      attrs.map (Attr.mapValue Shield.dropNul) := by
  have hone : ∀ a : Attr, (a.mapValue Shield.dropNul).mapValue Shield.dropNul =
      a.mapValue Shield.dropNul := by
    intro a
    obtain ⟨n, v⟩ := a
    cases v with
    | none => rfl
    | some v => simp only [Attr.mapValue, Option.map_some, dropNul_dropNul]
  rw [List.map_map]
  exact List.map_congr_left fun a _ => hone a

theorem Element.reduced_script {attrs : List Attr} {s : List Char} (h : '\x00' ∉ s) :
    (⟨"script".toList, attrs, s⟩ : Element).reduced =
      ⟨"script".toList, attrs.map (Attr.mapValue Shield.dropNul),
        if Reduce.namesFile ((attrs.map (Attr.mapValue Shield.dropNul)).flatMap Attr.text) then s
        else Script.compact s⟩ := by
  have hname : "script".toList ≠ "style".toList := by decide
  rw [reduced, withoutNul, dropNul_of_not_mem h, compactStyle, if_neg hname, compactScript]
  cases Reduce.namesFile ((attrs.map (Attr.mapValue Shield.dropNul)).flatMap Attr.text) <;> simp

theorem Element.reduced_style {attrs : List Attr} {s : List Char} (h : '\x00' ∉ s) :
    (⟨"style".toList, attrs, s⟩ : Element).reduced =
      ⟨"style".toList, attrs.map (Attr.mapValue Shield.dropNul), Stylesheet.compact s⟩ := by
  rw [reduced, withoutNul, dropNul_of_not_mem h, compactStyle, if_pos rfl, compactScript, if_neg]
  simp

/-- A script whose literals are complete is compact after the reduction. -/
theorem Element.reduced_reduced_script (attrs : List Attr) {s : List Char} (h : Script.Complete s) :
    (⟨"script".toList, attrs, s⟩ : Element).reduced.reduced =
      (⟨"script".toList, attrs, s⟩ : Element).reduced := by
  have hnul : '\x00' ∉ s := h.not_mem (by decide)
  have hcompact : '\x00' ∉ Script.compact s := fun hm => by
    rcases Script.mem_compact hm with hm | hm | hm
    · exact hnul hm
    · exact absurd hm (by decide)
    · exact absurd hm (by decide)
  rw [reduced_script hnul]
  split
  · rename_i hfile
    rw [reduced_script hnul, map_dropNul_map_dropNul, if_pos hfile]
  · rename_i hfile
    rw [reduced_script hcompact, map_dropNul_map_dropNul, if_neg hfile,
      Script.compact_compact h.uncut]

/-- So is a regular stylesheet. -/
theorem Element.reduced_reduced_style (attrs : List Attr) {s : List Char} (h : Stylesheet.Regular s) :
    (⟨"style".toList, attrs, s⟩ : Element).reduced.reduced =
      (⟨"style".toList, attrs, s⟩ : Element).reduced := by
  have hcompact : '\x00' ∉ Stylesheet.compact s := fun hm => by
    rcases Stylesheet.mem_compact hm with hm | hm | hm | hm
    · exact h.noNul hm
    all_goals exact absurd hm (by decide)
  rw [reduced_style h.noNul, reduced_style hcompact, map_dropNul_map_dropNul,
    Stylesheet.compact_compact h.ascii h.noSlash h.settled]

/-! ### Documents -/

/-- A tag that is reduced as far as it can be by one reduction. -/
def Tag.Firm : Tag Element → Prop
  | opening _ attrs => ∀ a ∈ attrs, a.Firm
  | sealed e => e.reduced.reduced = e.reduced
  | _ => True

theorem Tag.Firm.reduced_reduced {t : Tag Element} (h : t.Firm) : t.reduced.reduced = t.reduced := by
  cases t with
  | opening n attrs => exact congrArg (Tag.opening n) (hinting_filterMap_reduced? h)
  | sealed e => exact congrArg Tag.sealed h
  | _ => rfl

theorem unlessBlank_tidy (s : List Char) :
    unlessBlank (tidy (unlessBlank (tidy s))) = unlessBlank (tidy s) := by
  by_cases hs : (tidy s).all isBlank = true
  · simp only [unlessBlank, if_pos hs]
    rfl
  · simp only [unlessBlank, if_neg hs, tidy_tidy]

variable {d : List (Span Element)}

theorem reduced_reduced (h : ∀ s ∈ d, s.tag.Firm) : reduced (reduced d) = reduced d := by
  rw [reduced_eq (reduced d), dropComments_of_uncommented uncommented_reduced, reduced_eq d, List.map_map]
  refine List.map_congr_left fun s hs => ?_
  obtain ⟨⟨s', hs', htag⟩, -, -⟩ := mem_dropComments hs
  have hfirm : s.tag.Firm := htag ▸ h s' hs'
  simp only [Function.comp_apply, Span.reduced, hfirm.reduced_reduced, unlessBlank_tidy]

theorem Reducible.reduced (h : Reducible d) (hfirm : ∀ s ∈ d, s.tag.Firm) :
    Reducible (reduced d) where
  wellFormed := reduced_wellFormed h.wellFormed
  first s t hs := uncommented_reduced s (List.mem_of_mem_head? hs) t
  last := by
    obtain ⟨d₀, t, rfl, ht⟩ := h.last
    have hlast : Markup.reduced (d₀ ++ [⟨t, []⟩]) = Markup.reduced d₀ ++ [⟨t.reduced, []⟩] := by
      rw [reduced_eq, dropComments_append ht, List.map_append, ← reduced_eq]
      rfl
    refine ⟨_, _, hlast, fun s hs => ?_⟩
    cases t with
    | comment u => exact ht u rfl
    | _ => cases hs
  keys := by
    rw [reduced_reduced hfirm]
    exact h.keys

/-- A reduced document whose tags stand firm is not reduced any further. -/
theorem reduce_reduce (h : Reducible d) (hfirm : ∀ s ∈ d, s.tag.Firm) :
    reduce (reduce (text d)) = reduce (text d) := by
  rw [reduce_text h, reduce_text (h.reduced hfirm), reduced_reduced hfirm]

end PagePress.Markup
