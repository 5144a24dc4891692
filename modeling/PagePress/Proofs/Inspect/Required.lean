import PagePress.Inspect
import PagePress.Proofs.Inspect.Attributes
import PagePress.Proofs.Text.Case

/-!
What every document needs. The inspection looks for some tags in the lower-cased text of a
document, and for the viewport in its text as it is; a document that has the tags has the texts.
-/

namespace PagePress.Markup

open Text Html

/-- An ASCII text is found in lower case. -/
theorem containsText_lower {needle : String} {u : List Char} (hu : ∀ c ∈ u, c.toNat < 0x80)
    (hneedle : u.map Char.toLower = needle.toList) (s t : List Char) :
    containsText needle (lower (s ++ (u ++ t))) = true := by
  obtain ⟨w, b, hw⟩ := exists_lowerFrom_append false s (u ++ t)
  obtain ⟨b', hb⟩ := exists_lowerFrom_ascii hu b t
  have hlower : lower (s ++ (u ++ t)) = w ++ (needle.toList ++ lowerFrom b' t) := by
    rw [lower, hw, hb, hneedle]
  rw [containsText, hlower]
  refine occurs_of_suffix (s := needle.toList ++ lowerFrom b' t) (fun _ => ?_) ⟨w, rfl⟩ none
  rw [List.isPrefixOf_iff_prefix]
  exact List.prefix_append _ _

section

variable {ε : Type} [Written ε] {d : List (Span ε)}

/-- The text of a tag is part of the text of its document. -/
theorem exists_text {s : Span ε} (h : s ∈ d) : ∃ u w, text d = u ++ (s.tag.text ++ w) := by
  obtain ⟨l, r, rfl⟩ := List.append_of_mem h
  exact ⟨text l, s.after ++ text r, by simp⟩

/-- A tag without attributes is found by its text. -/
theorem containsText_tag {needle : String} {n : String} (hn : ∀ c ∈ n.toList, c.toNat < 0x80)
    (hneedle : ('<' :: n.toList ++ ['>']).map Char.toLower = needle.toList)
    (h : [] ∈ attrsOf n.toList d) : containsText needle (lower (text d)) = true := by
  obtain ⟨s, hs, ht⟩ := exists_opening h
  obtain ⟨u, w, hw⟩ := exists_text hs
  have htext : s.tag.text = '<' :: n.toList ++ ['>'] := by simp [ht, Tag.text, openingText]
  rw [hw, htext]
  refine containsText_lower (fun c hc => ?_) hneedle u w
  simp only [List.cons_append, List.mem_cons, List.mem_append, List.not_mem_nil, or_false] at hc
  rcases hc with rfl | hc | rfl
  · decide
  · exact hn c hc
  · decide

/-- A tag is found by its beginning. -/
theorem containsText_tagStart {needle : String} {n : String} (hn : ∀ c ∈ n.toList, c.toNat < 0x80)
    (hneedle : ('<' :: n.toList).map Char.toLower = needle.toList)
    (h : attrsOf n.toList d ≠ []) : containsText needle (lower (text d)) = true := by
  obtain ⟨attrs, hattrs⟩ := List.exists_mem_of_ne_nil _ h
  obtain ⟨s, hs, ht⟩ := exists_opening hattrs
  obtain ⟨u, w, hw⟩ := exists_text hs
  have htext : s.tag.text = ('<' :: n.toList) ++ (attrs.flatMap Attr.text ++ ['>']) := by
    simp [ht, Tag.text, openingText]
  rw [hw, htext, List.append_assoc]
  refine containsText_lower (fun c hc => ?_) hneedle u _
  rcases List.mem_cons.1 hc with rfl | hc
  · decide
  · exact hn c hc

/-- The tag that names the viewport is recognised. -/
theorem namesViewport_opening {attrs : List Attr}
    (ha : ∀ a ∈ (⟨"name".toList, some "viewport".toList⟩ : Attr) :: attrs, a.WellFormed) (v : List Char) :
    Inspect.namesViewport
      (openingText "meta".toList (⟨"name".toList, some "viewport".toList⟩ :: attrs) ++ v) = true := by
  obtain ⟨k, hk, -, htake⟩ := tagStart?_openingText (m := "meta") (by decide) ha v
  have hattrs : ((⟨"name".toList, some "viewport".toList⟩ : Attr) :: attrs).flatMap Attr.text =
      ' ' :: ("name".toList ++ '=' :: '"' :: ("viewport".toList ++ '"' :: attrs.flatMap Attr.text)) := by
    simp [Attr.text]
  rw [Inspect.namesViewport, hk]
  simp only [htake, hattrs]
  generalize attrs.flatMap Attr.text = rest
  refine occurs_cons ?_ _
  obtain ⟨k1, h1, -, r1⟩ := Cut.wordBy?_gives (w := "name".toList) (f := sameLetter)
    (s := "name".toList ++ '=' :: '"' :: ("viewport".toList ++ '"' :: rest)) (by decide) rfl
  have hname : Cut.wordAnyCase? "name" _ = some k1 := h1
  have hequals : k1.rest.dropWhile isBlank = '=' :: '"' :: ("viewport".toList ++ '"' :: rest) := by
    rw [r1]
    rfl
  obtain ⟨k2, h2, -, r2⟩ := Cut.char?_gives (p := (· == '=')) hequals (by decide)
  have hvalue : k2.rest.dropWhile isBlank = '"' :: ("viewport".toList ++ '"' :: rest) := by
    rw [r2]
    rfl
  obtain ⟨k3, h3, -⟩ := Cut.wordBy?_gives (w := "viewport".toList) (f := sameLetter)
    (s := "viewport".toList ++ '"' :: rest) (by decide) rfl
  have hviewport : Cut.wordAnyCase? "viewport" ("viewport".toList ++ '"' :: rest) = some k3 := h3
  have hstart : startsWord (some ' ') = true := by decide
  simp only [hstart, Bool.true_and, hname, h2]
  generalize k2.rest.dropWhile isBlank = value at hvalue
  subst hvalue
  show (Cut.wordAnyCase? "viewport" ("viewport".toList ++ '"' :: rest)).isSome = true
  rw [hviewport]
  rfl

end

end PagePress.Markup
