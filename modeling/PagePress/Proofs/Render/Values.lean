import PagePress.Proofs.Render.Attributes

/-!
Values that the reduction only tidies. The pass that drops empty attributes looks for them inside
values too. It finds none in a value without quotation marks, and none in the address of a
background image, the one place where the layout itself writes apostrophes.
-/

namespace PagePress.Markup

open Text Html Render Document

/-- The text has no quotation marks of either kind. -/
def Unquoted (s : List Char) : Prop := ∀ c ∈ s, c ≠ '"' ∧ c ≠ '\''

theorem isUnquoted_iff {s : String} : isUnquoted s = true ↔ Unquoted s.toList := by
  simp [isUnquoted, Unquoted]

theorem unquoted_append {s t : List Char} : Unquoted (s ++ t) ↔ Unquoted s ∧ Unquoted t :=
  List.forall_mem_append

theorem unquoted_escape (s : List Char) : Unquoted (escape s) := by
  intro c hc
  obtain ⟨hvalue, hquote⟩ := escape_marks c hc
  refine ⟨?_, hquote⟩
  rintro rfl
  exact absurd hvalue (by decide)

theorem unquoted_tidy {v : List Char} (h : Unquoted v) : Unquoted (tidy v) := by
  intro c hc
  rcases mem_tidy hc with hc | rfl
  · exact h c hc
  · decide

theorem Unquoted.steady {v : List Char} (h : Unquoted v) : Steady v :=
  steady_of_not_mem (fun hm => (h _ hm).1 rfl) fun hm => (h _ hm).2 rfl

/-- The value of an attribute, once tidied, holds nothing that looks like an empty attribute. -/
def Calm (a : Attribute) : Prop := ∀ v, (attrOf a).value = some v → Steady (tidy v)

theorem calm_bare (name : String) : Calm (.bare name) := by
  rintro v ⟨⟩

theorem calm_mk {name : String} {pieces : List Piece} (h : ∀ p ∈ pieces, Unquoted p.text) :
    Calm ⟨name, some pieces⟩ := by
  rintro _ ⟨⟩
  refine (unquoted_tidy fun c hc => ?_).steady
  obtain ⟨p, hp, hc⟩ := List.mem_flatMap.1 hc
  exact h p hp c hc

theorem calm_escaped (name value : String) : Calm (.escaped name value) :=
  calm_mk (by simpa [Piece.text] using unquoted_escape value.toList)

theorem calm_fixed {name value : String} (h : isUnquoted value = true) :
    Calm (.fixed name value) :=
  calm_mk (by simpa [Piece.text] using isUnquoted_iff.1 h)

theorem unquoted_between {before after value : String} (hb : isUnquoted before = true)
    (ha : isUnquoted after = true) (hv : isUnquoted value = true) :
    ∀ p ∈ [Piece.fixed before, .raw value, .fixed after], Unquoted p.text := by
  simp only [List.forall_mem_cons, Piece.text]
  exact ⟨isUnquoted_iff.1 hb, isUnquoted_iff.1 hv, isUnquoted_iff.1 ha, by simp⟩

theorem calm_style {property value : String} (hp : isUnquoted property = true)
    (hv : isUnquoted value = true) : Calm (.style property value) := by
  refine calm_mk (unquoted_between ?_ (by decide) hv)
  rw [isUnquoted_iff, String.toList_append, unquoted_append]
  exact ⟨isUnquoted_iff.1 hp, isUnquoted_iff.1 (by decide)⟩

theorem calm_buttonStyle {color : String} (h : isUnquoted color = true) :
    Calm (buttonStyle color) :=
  calm_mk (unquoted_between (by decide) (by decide) h)

/-- The address of a background image stands between apostrophes. -/
theorem calm_image {image : String} (h : isUnquoted image = true) :
    Calm ⟨"style", some [.fixed "background-image: url('", .raw image,
      .fixed "'); background-size: cover; background-position: center;"]⟩ := by
  rintro _ ⟨⟩
  have hvalue : Piece.textAll [.fixed "background-image: url('", .raw image,
      .fixed "'); background-size: cover; background-position: center;"] =
        "background-image: url('".toList ++ (image.toList ++
          "'); background-size: cover; background-position: center;".toList) := by
    simp [Piece.textAll, Piece.text]
  have htidy : ∀ u, tidy ("background-image: url('".toList ++ (u ++
      "'); background-size: cover; background-position: center;".toList)) =
        "background-image: url('".toList ++ (tidy u ++
          "'); background-size: cover; background-position: center;".toList) := by
    intro u
    have h1 : Shield.dropNul "background-image: url('".toList = "background-image: url('".toList := by
      decide
    have h2 : Shield.dropNul "'); background-size: cover; background-position: center;".toList =
        "'); background-size: cover; background-position: center;".toList := by decide
    have hsolid : EndsSolid "background-image: url('".toList :=
      ⟨"background-image: url(".toList, '\'', by decide, by decide⟩
    have h3 : collapse "background-image: url('".toList = "background-image: url('".toList := by decide
    have h4 : collapse "'); background-size: cover; background-position: center;".toList =
        "'); background-size: cover; background-position: center;".toList := by decide
    have h5 : collapse (Shield.dropNul u ++
        "'); background-size: cover; background-position: center;".toList) = collapse (Shield.dropNul u) ++
          collapse "'); background-size: cover; background-position: center;".toList :=
      collapse_append (c := '\'') (by decide) _ _
    rw [tidy, dropNul_append, dropNul_append, h1, h2, hsolid.collapse_append, h3, h5, h4, tidy]
  show Steady (tidy (Piece.textAll _))
  rw [hvalue, htidy]
  have h := unquoted_tidy (isUnquoted_iff.1 h)
  exact steady_between (by decide) (fun hm => (h _ hm).1 rfl) (fun hm => (h _ hm).2 rfl) (by decide)
    (by decide)

/-- All attributes of the layout are calm as long as no raw value holds a quotation mark. -/
theorem admits_calm : Admits Calm (isUnquoted · = true) where
  bare := calm_bare
  escaped := calm_escaped
  fixed _ h := calm_fixed h
  style := calm_style
  button := calm_buttonStyle
  image := calm_image
  inputId {form suffix} h := by
    refine calm_mk ?_
    simp only [List.forall_mem_cons, Piece.text]
    exact ⟨unquoted_escape form.toList, h ▸ unquoted_escape suffix.toList, by simp⟩

end PagePress.Markup
