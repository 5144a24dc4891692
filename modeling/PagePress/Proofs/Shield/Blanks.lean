import PagePress.Proofs.Reduce
import PagePress.Proofs.Shield.Elements
import PagePress.Proofs.Text.Thinned

/-!
White space around shielded elements. Squeezing thins the text between the elements and leaves the
placeholders alone, and thinning neither makes nor breaks an element: what opens or closes one in
the thinned text did so before (`shielded?_eq_none_of_thinned`). So the elements of a squeezed
document are those of the document, and squeezing it again changes nothing
(`collapseBlanks_collapseBlanks`).
-/

namespace PagePress.Text

/-- A word that ends in the thinned text ended before. -/
theorem endsWord_of_thinned {s t : List Char} (h : ThinnedText false s t) (ht : endsWord t = true) :
    endsWord s = true := by
  cases h with
  | keep _ _ => exact ht
  | space hc _ _ => simp [endsWord, isWord_of_isBlank hc]
  | trail hs =>
    cases s with
    | nil => rfl
    | cons c s => simp [endsWord, isWord_of_isBlank (hs c (by simp))]

end PagePress.Text

namespace PagePress.Html.Shield

open Text Reduce

variable {α : Type}

/-! ### Thinned segments -/

/-- A segment of white space. -/
def isSpace : Segment α → Bool
  | .plain c => isBlank c
  | .piece _ _ => false

/-- A segment that ends with the end of a tag. -/
def closes : Segment α → Bool
  | .plain c => c == '>'
  | .piece _ _ => true

/-- Segments with less white space: it goes behind the end of a tag and behind an element. -/
abbrev ThinnedParts : Bool → List (Segment Nat) → List (Segment Nat) → Prop := Thinned isSpace closes

/-- A placeholder has no white space. -/
theorem placeholder_eq (i : Nat) :
    ∃ u, placeholder i = u ++ ['>'] ∧ ∀ c ∈ u, isBlank c = false := by
  refine ⟨'<' :: '\x00' :: Nat.toDigits 10 i ++ ['\x00'], by simp [placeholder], fun c hc => ?_⟩
  have hnul : isBlank '\x00' = false := by decide
  simp only [List.mem_append, List.mem_cons, List.not_mem_nil, or_false] at hc
  rcases hc with (rfl | rfl | hc) | rfl
  · decide
  · exact hnul
  · have hdigit := Nat.isDigit_of_mem_toDigits (by decide) (by decide) hc
    exact (Markup.NameChar.of_isNameChar (by simp [Markup.isNameChar, hdigit])).isBlank
  · exact hnul

theorem isSpace_of_slots {q : List (Segment Nat)} (h : ∀ c ∈ slots q, isBlank c = true) :
    ∀ x ∈ q, isSpace x = true := by
  intro x hx
  cases x with
  | plain c => exact h c (List.mem_flatMap.2 ⟨_, hx, by simp⟩)
  | piece u i =>
    have := h '<' (List.mem_flatMap.2 ⟨_, hx, by simp [placeholder]⟩)
    exact absurd this (by decide)

/-- A text with placeholders is thinned between them. -/
theorem exists_of_thinned_slots {q : List (Segment Nat)} {b : Bool} {t : List Char}
    (h : ThinnedText b (slots q) t) : ∃ q', t = slots q' ∧ ThinnedParts b q q' := by
  induction q generalizing b t with
  | nil =>
    cases h with
    | trail => exact ⟨[], rfl, .trail (by simp)⟩
  | cons x q ih =>
    cases x with
    | plain c =>
      rw [slots_plain] at h
      cases h with
      | keep hc h =>
        obtain ⟨q', rfl, h'⟩ := ih h
        exact ⟨.plain c :: q', rfl, .keep hc h'⟩
      | @space _ _ d _ _ hc hd h =>
        obtain ⟨q', rfl, h'⟩ := ih h
        exact ⟨.plain d :: q', rfl, .space hc hd h'⟩
      | drop hc h =>
        obtain ⟨q', rfl, h'⟩ := ih h
        exact ⟨q', rfl, .drop hc h'⟩
      | trail hs => exact ⟨[], rfl, .trail (isSpace_of_slots (q := .plain c :: q) hs)⟩
    | piece u i =>
      obtain ⟨w, hw, hsolid⟩ := placeholder_eq i
      rw [slots_piece, hw, List.append_assoc] at h
      obtain ⟨t', rfl, hrest⟩ := h.of_solid hsolid (c := '>') (by decide)
      obtain ⟨q', rfl, h'⟩ := ih hrest
      exact ⟨.piece u i :: q', by simp [hw], .keep rfl h'⟩

theorem isBlank_of_isSpace {q : List (Segment Nat)} (h : ∀ x ∈ q, isSpace x = true) :
    ∀ c ∈ source q, isBlank c = true := by
  intro c hc
  obtain ⟨x, hx, hc⟩ := List.mem_flatMap.1 hc
  cases x with
  | plain d =>
    obtain rfl : c = d := by simpa [Segment.source] using hc
    exact h _ hx
  | piece u i => cases h _ hx

/-- Thinned segments spell a thinned text, since nothing in an element changes. -/
theorem thinned_source {q q' : List (Segment Nat)} {b : Bool} (h : ThinnedParts b q q')
    (hq : ∀ u i, Segment.piece u i ∈ q → IsElement u) : ThinnedText b (source q) (source q') := by
  induction h with
  | @keep b x q q' hx h ih =>
    have ih := ih fun u i hu => hq u i (List.mem_cons_of_mem _ hu)
    cases x with
    | plain c => exact .keep hx ih
    | piece u i =>
      obtain ⟨w, rfl⟩ := exists_concat_of_isElement (hq u i (by simp))
      rw [source_piece, source_piece, tagText_append, tagText_append]
      exact .append_left _ (by decide) ih b
  | @space b x y q q' hx hy h ih =>
    have ih := ih fun u i hu => hq u i (List.mem_cons_of_mem _ hu)
    cases x with
    | plain c =>
      cases y with
      | plain d => exact .space hx hy ih
      | piece => cases hy
    | piece => cases hx
  | @drop x q q' hx h ih =>
    have ih := ih fun u i hu => hq u i (List.mem_cons_of_mem _ hu)
    cases x with
    | plain c => exact .drop hx ih
    | piece => cases hx
  | trail hs => exact .trail (isBlank_of_isSpace hs)

/-! ### Elements -/

/-- The first of a kind of characters stands no later than a given one. -/
theorem exists_first (c : Char) (x z : List Char) :
    ∃ a v, c ∉ a ∧ x ++ c :: z = a ++ c :: v ∧ z <:+ v := by
  induction x with
  | nil => exact ⟨[], z, by simp, rfl, List.suffix_rfl⟩
  | cons d x ih =>
    by_cases hd : d = c
    · exact ⟨[], x ++ c :: z, by simp, by rw [hd]; rfl,
        (List.suffix_cons c z).trans (List.suffix_append x _)⟩
    · obtain ⟨a, v, ha, hcut, hz⟩ := ih
      exact ⟨d :: a, v, by simp [ha, Ne.symm hd], by rw [List.cons_append, hcut, List.cons_append], hz⟩

/-- An element begins where its opening tag stands, if its closing tag stands somewhere behind. -/
theorem shielded?_ne_none {name : String} (hname : name ∈ names) {s w x z u : List Char}
    (hw : List.Forall₂ (fun a c => sameLetter a c = true) name.toList w)
    (hend : endsWord (x ++ '>' :: z) = true) (hu : u <:+ z)
    (hclose : (closeTag? sameCaseless w u).isSome = true) (hs : s = '<' :: (w ++ (x ++ '>' :: z))) :
    shielded? none s ≠ none := by
  obtain ⟨a, v, ha, hcut, hz⟩ := exists_first '>' x z
  rw [hcut] at hs hend
  rw [endsWord_append_mark] at hend
  obtain ⟨o, ho, topen, ropen⟩ := openTag?_gives (s := s) (v := v) hw ha hend
    (by simp [hs, openingTag])
  obtain ⟨body, hbody⟩ := Cut.exists_before? (p := fun t => (closeTag? sameCaseless w t).isSome)
    (s := o.rest) (by rw [ropen]; exact hu.trans hz) hclose
  obtain ⟨closing, hclosing⟩ := Option.isSome_iff_exists.1 (Cut.before?_some hbody).1
  have hlength : name.length = w.length := by rw [← hw.length_eq, String.length_toList]
  have hword : (o.text.drop 1).take name.length = w := by
    rw [topen, hlength, openingTag, List.drop_one, List.tail_cons, List.take_left]
  have he : elementRepeating? name s = some ⟨o, body, closing⟩ := by
    simp only [elementRepeating?, ho, Option.bind_eq_bind, Option.bind_some, hword, elementAfter?,
      hbody, hclosing, Option.pure_def]
  rw [shielded?, ne_eq, Option.map_eq_none_iff, List.findSome?_eq_none_iff]
  intro hnone
  rw [hnone name hname] at he
  cases he

/-- Where nothing opens an element, nothing opens one after thinning. -/
theorem shielded?_eq_none_of_thinned {s t : List Char} (h : ThinnedText false s t)
    (hs : shielded? none ('<' :: s) = none) : shielded? none ('<' :: t) = none := by
  by_contra hsome
  obtain ⟨name, hname, r, hr, v, rfl⟩ := exists_of_shielded? hsome
  have hletters := nameLetter_of_forall₂ (isTagName_of_mem hname) hr.opens
  have hclosing := nameLetter_of_sameCaseless hletters hr.closes
  have hsolid : ∀ w : List Char, (∀ c ∈ w, NameLetter c) →
      ∀ c ∈ w, isBlank c = false ∧ (c == '>') = false := by
    intro w hw c hc
    exact ⟨(hw c hc).isBlank, beq_false_of_ne (hw c hc).ne⟩
  obtain ⟨s₁, rfl, h₁⟩ := h.solid_prefix (hsolid _ hletters)
  have hend : endsWord s₁ = true := endsWord_of_thinned h₁ (by rw [endsWord_append_mark, hr.endsWord])
  obtain ⟨x, s₂, rfl, h₂⟩ := h₁.split (by decide)
  have hcut : r.closing ++ v = '<' :: ('/' :: r.closingWord ++ (r.space ++ '>' :: v)) := by
    simp [RawElement.closing, closingTag]
  rw [hcut] at h₂
  obtain ⟨y, s₃, rfl, h₃⟩ := h₂.split (by decide)
  obtain ⟨s₄, rfl, h₄⟩ := h₃.solid_prefix (u := '/' :: r.closingWord)
    (List.forall_mem_cons.2 ⟨by decide, hsolid _ hclosing⟩)
  obtain ⟨space, s₅, rfl, hspace, -⟩ := h₄.blanks hr.space (by decide)
  have hz : (closeTag? sameCaseless r.word
      ('<' :: ('/' :: r.closingWord ++ (space ++ '>' :: s₅)))).isSome = true :=
    isSome_closeTag?.2 ⟨r.closingWord, space, s₅, by simp [closingTag], hspace, hr.closes⟩
  exact shielded?_ne_none hname hr.opens hend (List.suffix_append y _) hz rfl hs

/-! ### Scans of thinned segments -/

section

variable {q q' : List (Segment Nat)} {b : Bool}

/-- A scan of the thinned text finds the thinned segments. -/
theorem scanned_of_thinned (h : ThinnedParts b q q')
    (hq : ∀ u i, Segment.piece u i ∈ q → IsElement u) (hs : Scanned q) : Scanned q' := by
  induction h with
  | @keep b x q q' hx h ih =>
    have hrest : ∀ u i, Segment.piece u i ∈ q → IsElement u :=
      fun u i hu => hq u i (List.mem_cons_of_mem _ hu)
    cases x with
    | plain c =>
      obtain ⟨hnone, hs⟩ := scanned_plain_cons.1 hs
      refine scanned_plain_cons.2 ⟨?_, ih hrest hs⟩
      by_cases hc : c = '<'
      · subst hc
        exact shielded?_eq_none_of_thinned (thinned_source h hrest) hnone
      · exact shielded?_of_ne_mark hc _
    | piece u i =>
      have hu : IsElement u := hq u i (by simp)
      exact (scanned_piece_cons hu).2 (ih hrest ((scanned_piece_cons hu).1 hs))
  | @space b x y q q' hx hy h ih =>
    cases x with
    | plain c =>
      cases y with
      | plain d =>
        have hd : d ≠ '<' := by
          rintro rfl
          exact absurd hy (by decide)
        exact scanned_plain_cons.2 ⟨shielded?_of_ne_mark hd _,
          ih (fun u i hu => hq u i (List.mem_cons_of_mem _ hu)) (scanned_plain_cons.1 hs).2⟩
      | piece => cases hy
    | piece => cases hx
  | @drop x q q' hx h ih =>
    cases x with
    | plain c =>
      exact ih (fun u i hu => hq u i (List.mem_cons_of_mem _ hu)) (scanned_plain_cons.1 hs).2
    | piece => cases hx
  | trail => exact scanned_nil

/-- The elements keep their numbers. -/
theorem number_of_thinned (h : ThinnedParts b q q') (i : Nat) (hq : number i q = q) :
    number i q' = q' := by
  induction h generalizing i with
  | @keep b x q q' hx h ih =>
    cases x with
    | plain c => exact congrArg (_ :: ·) (ih i (List.cons.inj hq).2)
    | piece u j =>
      obtain ⟨hj, hrest⟩ := List.cons.inj hq
      rw [number, hj, ih _ hrest]
  | @space b x y q q' hx hy h ih =>
    cases x with
    | plain c =>
      cases y with
      | plain d => exact congrArg (_ :: ·) (ih i (List.cons.inj hq).2)
      | piece => cases hy
    | piece => cases hx
  | @drop x q q' hx h ih =>
    cases x with
    | plain c => exact ih i (List.cons.inj hq).2
    | piece => cases hx
  | trail => rfl

end

/-- The text without the white space outside its elements. -/
def solid (p : List (Segment α)) : List Char := source (p.filter fun x => !isSpace x)

theorem saved_forget_filter (p : List (Segment α)) :
    saved (forget (p.filter fun x => !isSpace x)) = saved (forget p) := by
  induction p with
  | nil => rfl
  | cons x p ih =>
    cases x with
    | plain c =>
      by_cases hc : isBlank c = true
      · simpa [isSpace, hc, saved] using ih
      · simpa [isSpace, hc, saved] using ih
    | piece u a => simpa [isSpace, saved] using ih

theorem solid_forget (p : List (Segment α)) : solid (forget p) = solid p := by
  induction p with
  | nil => rfl
  | cons x p ih =>
    cases x with
    | plain c =>
      by_cases hc : isBlank c = true
      · simpa [solid, isSpace, hc] using ih
      · simpa [solid, isSpace, hc] using ih
    | piece u a => simpa [solid, isSpace] using ih

/-! ### Documents -/

/-- Squeezing a document thins its segments. -/
theorem exists_collapseBlanks (h : List Char) : ∃ q, squeeze (slots (number 0 (parts h))) = slots q ∧
    ThinnedParts true (number 0 (parts h)) q ∧ collapseBlanks h = source q := by
  obtain ⟨q, hq, hthin⟩ := exists_of_thinned_slots (thinned_squeeze (slots (number 0 (parts h))))
  refine ⟨q, hq, hthin, around_eq hq fun x hx => ?_⟩
  rcases hthin.mem hx with hx | hx
  · exact .inl hx
  · cases x with
    | plain c =>
      refine .inr ⟨c, rfl, ?_⟩
      rintro rfl
      exact absurd hx (by decide)
    | piece => cases hx

/-- Squeezing a document twice is squeezing it once. The elements that the shield pattern finds in
the result are those of the document, verbatim and in their order, and but for white space outside
of them the two texts are the same. -/
theorem collapseBlanks_collapseBlanks (h : List Char) :
    collapseBlanks (collapseBlanks h) = collapseBlanks h ∧
      saved (segments shielded? (collapseBlanks h)) = saved (segments shielded? (dropNul h)) ∧
      solid (segments shielded? (collapseBlanks h)) = solid (segments shielded? (dropNul h)) := by
  obtain ⟨q, hslots, hthin, hq⟩ := exists_collapseBlanks h
  have helements : ∀ u i, Segment.piece u i ∈ number 0 (parts h) → IsElement u := by
    intro u i hu
    obtain ⟨a, ha⟩ := mem_number hu
    exact (scanned_segments (dropNul h)).2 u a ha
  have hscanned : Scanned q :=
    scanned_of_thinned hthin helements ((scanned_number 0).2 (scanned_segments (dropNul h)).1)
  have hfilter := hthin.filter_eq
  have hsegments : segments shielded? (collapseBlanks h) = forget q := by rw [hq, hscanned]
  refine ⟨?_, ?_, ?_⟩
  · have hnul : dropNul (collapseBlanks h) = collapseBlanks h := by
      refine Markup.dropNul_of_not_mem fun hm => ?_
      rw [hq] at hm
      rcases (thinned_source hthin helements).mem hm with hm | hm
      · rw [source_number] at hm
        exact nul_not_mem_parts h hm
      · exact absurd hm (by decide)
    have hnumber : number 0 q = q := number_of_thinned hthin 0 (number_number ..)
    have hparts : number 0 (parts (collapseBlanks h)) = q := by
      rw [parts, hnul, hsegments, number_forget, hnumber]
    rw [hq] at hparts ⊢
    refine around_eq ?_ fun x hx => .inl (by rwa [hparts])
    rw [hparts, ← hslots, squeeze_squeeze]
  · rw [hsegments, ← saved_forget_filter q, hfilter, saved_forget_filter, forget_number, forget_unit]
    rfl
  · rw [hsegments, solid_forget, solid, hfilter, ← solid, ← solid_forget, forget_number, forget_unit]
    rfl

end PagePress.Html.Shield
