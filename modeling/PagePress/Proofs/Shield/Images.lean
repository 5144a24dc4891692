import PagePress.Proofs.Reduce.ImageTags
import PagePress.Proofs.Shield.Metas

/-!
Images between shielded elements. The pass that adds hints changes image tags only, and what stands around
them reads as before: no closing tag and no element comes about or goes (`Hinted.shielded?_eq_none`), and no
other image tag. So in any text whose image tags are spelt in full the images and nothing else get their
hints, once and for all (`hintImages_of_spelled`).
-/

namespace PagePress.Html.Shield

open Text Reduce
open Markup (StartTag IsImage)

variable {s s' : List Char} {p p' : List (Segment Unit)}

/-! ### Texts with hints -/

/-- A text, and the same text with the hints of some of its image tags. -/
inductive Hinted : List Char → List Char → Prop where
  | nil : Hinted [] []
  | char {s s' : List Char} (c : Char) : Hinted s s' → Hinted (c :: s) (c :: s')
  | image {t : StartTag} {s s' : List Char} : IsImage t → Hinted s s' → Hinted (t.text ++ s) (t.hinted.text ++ s')

namespace Hinted

theorem text_eq (t : StartTag) (s : List Char) : t.text ++ s = '<' :: (t.inner ++ '>' :: s) := by
  simp [StartTag.text, tagText]

theorem append (u : List Char) (h : Hinted s s') : Hinted (u ++ s) (u ++ s') := by
  induction u with
  | nil => exact h
  | cons c u ih => exact .char c ih

/-- A word ends in both texts or in none. -/
theorem endsWord_eq (h : Hinted s s') : endsWord s' = endsWord s := by
  cases h with
  | nil => rfl
  | char => rfl
  | image => rfl

/-- What holds no mark of a tag stands in front of both texts. -/
theorem of_append {w r' : List Char} (hw : '<' ∉ w) (h : Hinted s (w ++ r')) :
    ∃ r, s = w ++ r ∧ Hinted r r' := by
  induction w generalizing s with
  | nil => exact ⟨s, rfl, h⟩
  | cons c w ih =>
    rw [List.mem_cons, not_or] at hw
    generalize hs' : c :: w ++ r' = s' at h
    cases h with
    | nil => cases hs'
    | char d h =>
      obtain ⟨rfl, rfl⟩ := List.cons.inj hs'
      obtain ⟨r, rfl, hr⟩ := ih hw.2 h
      exact ⟨r, rfl, hr⟩
    | image =>
      rw [text_eq] at hs'
      exact absurd (List.cons.inj hs').1.symm hw.1

/-- The end of a tag is the end of one in both texts. -/
theorem of_mark {u' v' : List Char} (hu : '>' ∉ u') (h : Hinted s (u' ++ '>' :: v')) :
    ∃ u v, s = u ++ '>' :: v ∧ '>' ∉ u ∧ Hinted v v' := by
  generalize hs' : u' ++ '>' :: v' = s' at h
  induction h generalizing u' with
  | nil => simp at hs'
  | @char s s' c h ih =>
    cases u' with
    | nil =>
      obtain ⟨rfl, rfl⟩ := List.cons.inj hs'
      exact ⟨[], s, rfl, by simp, h⟩
    | cons d u' =>
      rw [List.mem_cons, not_or] at hu
      obtain ⟨rfl, hrest⟩ := List.cons.inj hs'
      obtain ⟨u, v, rfl, hu', hv⟩ := ih hu.2 hrest
      exact ⟨d :: u, v, rfl, by simp [hu.1, hu'], hv⟩
  | @image t s s' ht h ih =>
    rw [text_eq, ← List.cons_append] at hs'
    obtain ⟨-, rfl⟩ := eq_and_eq_of_append_cons hu (by simp [ht.hinted.regular.marks.2]) hs'
    exact ⟨'<' :: t.inner, s, by rw [text_eq]; rfl, by simp [ht.regular.marks.2], h⟩

/-- Closing tags do not come about with hints. -/
theorem holdsClose (h : Hinted s s') {w : List Char} (hw : ∀ c ∈ w, NameLetter c) (hclose : HoldsClose w s') :
    HoldsClose w s := by
  induction h with
  | nil => exact hclose
  | @char s s' c h ih =>
    obtain ⟨u, hu, hclose⟩ := hclose
    rcases List.suffix_cons_iff.1 hu with rfl | hu
    · obtain ⟨w', space, v, hcut, hspace, hsame⟩ := isSome_closeTag?.1 hclose
      obtain ⟨rfl, rfl⟩ := List.cons.inj hcut
      have hletters := nameLetter_of_sameCaseless hw hsame
      have hmark : '<' ∉ '/' :: (w' ++ (space ++ ['>'])) := by
        simp only [List.mem_cons, List.mem_append, List.not_mem_nil, or_false, not_or]
        exact ⟨by decide, fun hm => (hletters _ hm).ne (by decide) rfl,
          fun hm => absurd (hspace _ hm) (by decide), by decide⟩
      obtain ⟨r, rfl, -⟩ := h.of_append hmark
      exact ⟨_, List.suffix_rfl, isSome_closeTag?.2 ⟨w', space, r, rfl, hspace, hsame⟩⟩
    · exact (ih ⟨u, hu, hclose⟩).of_suffix (List.suffix_cons ..)
  | @image t s s' ht h ih =>
    obtain ⟨u, hu, hclose⟩ := hclose
    obtain ⟨w', space, v, rfl, -⟩ := isSome_closeTag?.1 hclose
    rw [text_eq] at hu
    rcases List.suffix_cons_iff.1 hu with hu | hu
    · exact absurd (List.cons.inj (List.cons.inj hu).2).1 (by decide)
    · have hinner : '<' ∉ t.hinted.inner ++ ['>'] := by simp [ht.hinted.regular.marks.1]
      rw [← List.singleton_append, ← List.append_assoc] at hu
      have hu := suffix_of_suffix_append hinner hu
      exact (ih ⟨_, hu, hclose⟩).of_suffix (List.suffix_append ..)

/-- No element comes about with hints. -/
theorem shielded?_eq_none (h : Hinted s s') {c : Char} (hnone : shielded? none (c :: s) = none) :
    shielded? none (c :: s') = none := by
  by_cases hc : c = '<'
  · subst hc
    by_contra hsome
    obtain ⟨name, hname, r, hr, v, rfl⟩ := exists_of_shielded? hsome
    have hletters := nameLetter_of_forall₂ (isTagName_of_mem hname) hr.opens
    obtain ⟨q, rfl, hq⟩ := h.of_append fun hm => (hletters _ hm).ne (by decide) rfl
    have hend := hq.endsWord_eq
    obtain ⟨x, z, rfl, -, hz⟩ := hq.of_mark hr.attrs
    obtain ⟨u, hu, hclose⟩ := hz.holdsClose hletters ⟨r.closing ++ v, ⟨r.body, rfl⟩,
      isSome_closeTag?.2 ⟨r.closingWord, r.space, v, rfl, hr.space, hr.closes⟩⟩
    rw [endsWord_append_mark, hr.endsWord] at hend
    exact shielded?_ne_none hname hr.opens hend.symm hu hclose rfl hnone
  · exact shielded?_of_ne_mark hc s'

/-- No image tag comes about with hints. -/
theorem openTag?_eq_none (h : Hinted s s') {c : Char} (hnone : openTag? "img" (c :: s) = none) :
    openTag? "img" (c :: s') = none := by
  by_contra hsome
  obtain ⟨k, hk⟩ := Option.ne_none_iff_exists'.1 hsome
  obtain ⟨w, a, htext, ha, hend, hw⟩ := openTag?_some hk
  have hcut := k.append_eq
  rw [htext, openingTag, List.cons_append] at hcut
  obtain ⟨rfl, hcut⟩ := List.cons.inj hcut
  have h : Hinted s (w ++ (a ++ '>' :: k.rest)) := by
    rw [← hcut] at h
    simpa using h
  obtain ⟨q, rfl, hq⟩ := h.of_append fun hm => (nameLetter_of_forall₂ isTagName_img hw _ hm).ne (by decide) rfl
  have hword := hq.endsWord_eq
  obtain ⟨x, z, rfl, hx, -⟩ := hq.of_mark ha
  rw [endsWord_append_mark, endsWord_append_mark x, hend] at hword
  obtain ⟨k', hk', -⟩ := openTag?_gives (s := '<' :: (w ++ (x ++ '>' :: z))) (v := z) hw hx hword.symm
    (by simp [openingTag])
  rw [hnone] at hk'
  cases hk'

end Hinted

/-! ### Segments with hints -/

theorem opensWith_img : Markup.OpensWith ["img"] (Inspect.tag? "img") where
  contextFree _ _ := rfl
  names := by decide
  none s h := by rw [Inspect.tag?, h "img" (by simp), Option.map_none]

theorem passes_img_placeholder (i : Nat) : Passes (Inspect.tag? "img") (placeholder i) :=
  opensWith_img.passes_of_first (by decide) (by decide) (mark_not_mem_tail i)

theorem passes_imageTag_placeholder (i : Nat) : Passes imageTag? (placeholder i) :=
  Markup.opensWith_image.passes_of_first (by decide) (by decide) (mark_not_mem_tail i)

theorem takes_img {t : StartTag} (ht : IsImage t) : Takes (Inspect.tag? "img") t.text t.text :=
  Inspect.takes_text (by decide) ht.regular

theorem segments_img_of_none {c : Char} (h : openTag? "img" (c :: s) = none) :
    segments (Inspect.tag? "img") (c :: s) = .plain c :: segments (Inspect.tag? "img") s := by
  have h : Inspect.tag? "img" none (c :: s) = none := by rw [Inspect.tag?, h, Option.map_none]
  rw [segments, segmentsFrom_of_none h, segmentsFrom_eq_segments opensWith_img.contextFree]

theorem text_mem_findAll_img {k : Cut s} (h : openTag? "img" s = some k) :
    k.text ∈ findAll (Inspect.tag? "img") s := by
  obtain ⟨w, a, htext, -⟩ := openTag?_some h
  have hne : k.text ≠ [] := by simp [htext, openingTag]
  obtain ⟨u, v, rfl⟩ := k
  have hsome : Inspect.tag? "img" none (u ++ v) = some (u, ⟨u, v, rfl⟩) := by rw [Inspect.tag?, h, Option.map_some]
  rw [findAll, segments, segmentsFrom_of_some hne hsome rfl]
  exact List.mem_cons_self ..

/-- The segments of a text whose elements are numbered from `i`, and the same segments with the hints of all
image tags. -/
inductive HintedFrom : Nat → List (Segment Unit) → List (Segment Unit) → Prop where
  | nil {i : Nat} : HintedFrom i [] []
  | char {i : Nat} {c : Char} {p p' : List (Segment Unit)} :
      openTag? "img" (c :: slots (number i p)) = none → HintedFrom i p p' →
      HintedFrom i (.plain c :: p) (.plain c :: p')
  | image {i : Nat} {t : StartTag} {p p' : List (Segment Unit)} : IsImage t → HintedFrom i p p' →
      HintedFrom i (t.text.map .plain ++ p) (t.hinted.text.map .plain ++ p')
  | element {i : Nat} {u : List Char} {p p' : List (Segment Unit)} : HintedFrom (i + 1) p p' →
      HintedFrom i (.piece u () :: p) (.piece u () :: p')

/-- What becomes of a segment: an image tag gets its hints, and a character stays. -/
inductive HintedSegment : Segment (List Char) → Segment (List Char) → Prop where
  | char (c : Char) : HintedSegment (.plain c) (.plain c)
  | image {t : StartTag} : IsImage t → HintedSegment (.piece t.text t.text) (.piece t.hinted.text t.hinted.text)

theorem forall₂_map_plain (u : List Char) : List.Forall₂ HintedSegment (u.map .plain) (u.map .plain) := by
  rw [List.forall₂_map_left_iff, List.forall₂_map_right_iff]
  exact List.forall₂_same.2 fun c _ => .char c

namespace HintedFrom

variable {i : Nat}

theorem source (h : HintedFrom i p p') : Hinted (source p) (source p') := by
  induction h with
  | nil => exact .nil
  | char _ _ ih => exact .char _ ih
  | image ht _ ih =>
    rw [source_append, source_append, source_map_plain, source_map_plain]
    exact .image ht ih
  | element _ ih => exact ih.append _

theorem slots (h : HintedFrom i p p') : Hinted (slots (number i p)) (slots (number i p')) := by
  induction h with
  | nil => exact .nil
  | char _ _ ih => exact .char _ ih
  | image ht _ ih =>
    rw [number_map_plain_append, number_map_plain_append, slots_append, slots_append, slots_map_plain,
      slots_map_plain]
    exact .image ht ih
  | element _ ih => exact ih.append _

theorem saved_eq (h : HintedFrom i p p') : saved p' = saved p := by
  induction h with
  | nil => rfl
  | char _ _ ih => exact ih
  | image _ _ ih => rw [saved_map_plain_append, saved_map_plain_append, ih]
  | @element _ u _ _ _ ih => exact congrArg (u :: ·) ih

theorem nul (h : HintedFrom i p p') (hn : '\x00' ∉ Shield.source p) : '\x00' ∉ Shield.source p' := by
  induction h with
  | nil => exact hn
  | char _ _ ih =>
    rw [source_plain, List.mem_cons, not_or] at hn ⊢
    exact ⟨hn.1, ih hn.2⟩
  | @image _ t _ _ ht _ ih =>
    rw [source_append, source_map_plain, List.mem_append, not_or] at hn ⊢
    refine ⟨fun hm => ?_, ih hn.2⟩
    simp only [StartTag.text, mem_tagText] at hn hm
    rcases hm with hm | hm | hm
    · exact absurd hm (by decide)
    · exact (ht.mem_inner_hinted hm).elim (fun hm => hn.1 (.inr (.inl hm))) fun h => h.2.2 rfl
    · exact absurd hm (by decide)
  | element _ ih =>
    rw [source_piece, List.mem_append, not_or] at hn ⊢
    exact ⟨hn.1, ih hn.2⟩

/-- The pass gives all image tags their hints. -/
theorem replaceAll (h : HintedFrom i p p') :
    Text.replaceAll imageTag? (Shield.slots (number i p)) = Shield.slots (number i p') := by
  induction h with
  | nil => exact replaceAll_nil _
  | @char i c p p' hnone _ ih =>
    have hnone : imageTag? none (c :: Shield.slots (number i p)) = none := by rw [imageTag?, hnone, Option.map_none]
    rw [number, slots_plain, replaceAll_of_none Markup.opensWith_image.contextFree hnone, ih]
    rfl
  | image ht _ ih =>
    rw [number_map_plain_append, number_map_plain_append, slots_append, slots_append, slots_map_plain,
      slots_map_plain, ht.takes_imageTag.replaceAll, ih]
  | @element i u p p' _ ih =>
    rw [number, slots_piece, (passes_imageTag_placeholder i).replaceAll, ih]
    rfl

/-- Nothing but the image tags changes. -/
theorem segments (h : HintedFrom i p p') :
    List.Forall₂ HintedSegment (Text.segments (Inspect.tag? "img") (Shield.slots (number i p)))
      (Text.segments (Inspect.tag? "img") (Shield.slots (number i p'))) := by
  induction h with
  | nil =>
    rw [number, slots_nil, segments_nil]
    exact .nil
  | @char i c p p' hnone h ih =>
    rw [number, number, slots_plain, slots_plain, segments_img_of_none hnone,
      segments_img_of_none (h.slots.openTag?_eq_none hnone)]
    exact .cons (.char c) ih
  | image ht _ ih =>
    rw [number_map_plain_append, number_map_plain_append, slots_append, slots_append, slots_map_plain,
      slots_map_plain, takes_img ht, takes_img ht.hinted]
    exact .cons (.image ht) ih
  | @element i u p p' _ ih =>
    rw [number, number, slots_piece, slots_piece, passes_img_placeholder, passes_img_placeholder]
    exact List.rel_append (forall₂_map_plain _) ih

/-- With their hints image tags get no more. -/
theorem again (h : HintedFrom i p p') : HintedFrom i p' p' := by
  induction h with
  | nil => exact .nil
  | char hnone h ih => exact .char (h.slots.openTag?_eq_none hnone) ih
  | @image i t p p' ht _ ih =>
    have := HintedFrom.image ht.hinted ih
    rwa [t.hinted_hinted] at this
  | element _ ih => exact .element ih

/-- The scan for elements finds what is left. -/
theorem scanned (h : HintedFrom i p p') (hp : ∀ u ∈ saved p, IsElement u) (hscan : Scanned p) : Scanned p' := by
  induction h with
  | nil => exact scanned_nil
  | char _ h ih =>
    obtain ⟨hnone, hscan⟩ := scanned_plain_cons.1 hscan
    exact scanned_plain_cons.2 ⟨h.source.shielded?_eq_none hnone, ih hp hscan⟩
  | @image _ t _ _ ht _ ih =>
    rw [saved_map_plain_append] at hp
    have hscan := ((scanned_tag ht.regular.marks.1).1 hscan).2
    have hunshielded : Unshielded t.hinted.inner := by
      rw [← ht.hintedTag_inner]
      exact unshielded_hintedTag t.inner
    have hpass : Passes shielded? t.hinted.text := passes_shielded_tag ht.hinted.regular.marks.1 hunshielded
    rw [Scanned, source_append, source_map_plain, hpass, forget_append, forget_map_plain, ih hp hscan]
  | @element _ u _ _ _ ih =>
    have hu := hp u (List.mem_cons_self ..)
    exact (scanned_piece_cons hu).2 (ih (fun v hv => hp v (List.mem_cons_of_mem _ hv))
      ((scanned_piece_cons hu).1 hscan))

end HintedFrom

/-- A word without a mark of a tag stands between two elements. -/
theorem exists_of_slots_append {i : Nat} {w r : List Char} (hw : '<' ∉ w) (h : slots (number i p) = w ++ r) :
    ∃ q, p = w.map .plain ++ q ∧ slots (number i q) = r := by
  induction w generalizing p with
  | nil => exact ⟨p, rfl, h⟩
  | cons c w ih =>
    rw [List.mem_cons, not_or] at hw
    cases p with
    | nil => cases h
    | cons x p =>
      cases x with
      | plain d =>
        rw [number, slots_plain] at h
        obtain ⟨rfl, hrest⟩ := List.cons.inj h
        obtain ⟨q, rfl, hq⟩ := ih hw.2 hrest
        exact ⟨q, rfl, hq⟩
      | piece u a =>
        rw [number, slots_piece, placeholder] at h
        exact absurd (List.cons.inj h).1 hw.1

/-- Where all image tags are spelt in full, they get their hints. -/
theorem exists_hintedFrom {i : Nat} (h : ∀ x ∈ findAll (Inspect.tag? "img") (slots (number i p)),
    ∃ t, IsImage t ∧ x = t.text) : ∃ p', HintedFrom i p p' := by
  induction hn : p.length using Nat.strongRecOn generalizing p i with
  | _ n ih =>
    cases p with
    | nil => exact ⟨[], .nil⟩
    | cons x p =>
      cases x with
      | plain c =>
        rw [number, slots_plain] at h
        cases hopen : openTag? "img" (c :: slots (number i p)) with
        | none =>
          rw [findAll, segments_img_of_none hopen] at h
          obtain ⟨p', hp'⟩ := ih p.length (by simp at hn; omega) h rfl
          exact ⟨.plain c :: p', .char hopen hp'⟩
        | some k =>
          obtain ⟨t, ht, htext⟩ := h k.text (text_mem_findAll_img hopen)
          have hcut := k.append_eq
          rw [htext, StartTag.text, tagText, List.cons_append] at hcut
          obtain ⟨rfl, hcut⟩ := List.cons.inj hcut
          obtain ⟨q, rfl, hq⟩ := exists_of_slots_append (by simp [ht.regular.marks.1]) hcut.symm
          have htag : Segment.plain '<' :: ((t.inner ++ ['>']).map .plain ++ q) = t.text.map .plain ++ q := rfl
          have hrest : ∀ x ∈ findAll (Inspect.tag? "img") (slots (number i q)), ∃ t, IsImage t ∧ x = t.text := by
            intro x hx
            have hwhole : '<' :: (t.inner ++ ['>'] ++ slots (number i q)) = t.text ++ slots (number i q) := rfl
            refine h x ?_
            rw [← hcut, ← hq, hwhole, lists_of_takes (takes_img ht)]
            exact List.mem_append_right _ hx
          obtain ⟨p', hp'⟩ := ih q.length (by simp at hn; omega) hrest rfl
          rw [htag]
          exact ⟨_, .image ht hp'⟩
      | piece u a =>
        rw [number, slots_piece, lists_of_passes (passes_img_placeholder i)] at h
        obtain ⟨p', hp'⟩ := ih p.length (by simp at hn; omega) h rfl
        exact ⟨.piece u () :: p', .element hp'⟩

/-! ### Documents -/

/-- What the scan for images finds outside of the elements of a document. -/
def images (html : List Char) : List (Segment (List Char)) := segments (Inspect.tag? "img") (masked html)

/-- The image tags outside of the elements are spelt in full. -/
def ImagesSpelled (html : List Char) : Prop :=
  ∀ x ∈ findAll (Inspect.tag? "img") (masked html), ∃ t, IsImage t ∧ x = t.text

/-- The image tags outside of the elements get their hints, behind their attributes, and a hint is given
exactly when no attribute mentions it. Everything else is left as it was, the elements too, and there is
nothing left to do. -/
theorem hintImages_of_spelled {html : List Char} (h : ImagesSpelled html) :
    List.Forall₂ HintedSegment (images html) (images (hintImages html)) ∧
      saved (parts (hintImages html)) = saved (parts html) ∧ '\x00' ∉ hintImages html ∧
      hintImages (hintImages html) = hintImages html ∧
      ∀ t, IsImage t → Markup.readStartTag? t.text = some (t.name, t.attrList) ∧
        Markup.readStartTag? t.hinted.text = some ("img".toList, t.attrList ++ t.hints) ∧
        ((∀ n ∈ ["loading", "decoding"], ∀ a ∈ t.attrs, a.mentions (n ++ "=") = Inspect.isNamed n a.name) →
          t.hints = (if t.attrList.any (fun a => Inspect.isNamed "loading" a.name) then [] else [Markup.lazyLoading]) ++
            if t.attrList.any (fun a => Inspect.isNamed "decoding" a.name) then [] else [Markup.asyncDecoding]) := by
  obtain ⟨p', hhinted⟩ := exists_hintedFrom (p := parts html) (i := 0) (by rwa [← maskFrom_eq])
  obtain ⟨hscanned, helements⟩ := scanned_segments (dropNul html)
  have hnul : '\x00' ∉ source p' := hhinted.nul (nul_not_mem_parts html)
  have hresult : hintImages html = source p' := around_of_saved hhinted.replaceAll hhinted.saved_eq hnul
  have hparts : parts (hintImages html) = p' := by
    have hp' := hhinted.scanned (fun u hu => helements u () (mem_saved.1 hu)) hscanned
    rw [hresult, parts, Markup.dropNul_of_not_mem hnul, hp', forget_unit]
  refine ⟨?_, by rw [hparts, hhinted.saved_eq], by rwa [hresult], ?_, fun t ht => ⟨?_, ?_, Markup.hints_of_named⟩⟩
  · rw [images, images, masked, masked, maskFrom_eq, maskFrom_eq, hparts]
    exact hhinted.segments
  · have hagain : replaceAll imageTag? (slots (number 0 (parts (hintImages html)))) = slots (number 0 p') := by
      rw [hparts]
      exact hhinted.again.replaceAll
    calc hintImages (hintImages html) = source p' := around_of_saved hagain (by rw [hparts]) hnul
      _ = hintImages html := hresult.symm
  · exact Inspect.read_of_regular (by decide) ht.regular
  · rw [Inspect.read_of_regular (by decide) ht.hinted.regular, t.attrList_hinted]
    rfl

/-- An image without hints, one with a hint and a slash, and one that mentions a hint in a longer name. -/
def sampleImages : List StartTag :=
  [⟨"img".toList, [Inspect.sampleAttr "src" "a"], []⟩,
    ⟨"IMG".toList, [Inspect.sampleAttr "alt" "x", Inspect.sampleAttr "loading" "eager"], [' ', '/']⟩,
    ⟨"img".toList, [Inspect.sampleAttr "data-loading" "b", Inspect.sampleAttr "src" "c"], []⟩]

theorem isImage_sampleImages : ∀ t ∈ sampleImages, IsImage t := by
  have hattr : ∀ x ∈ [("src", "a"), ("alt", "x"), ("loading", "eager"), ("data-loading", "b"), ("src", "c")],
      (Inspect.sampleAttr x.1 x.2).WellFormed := by
    intro x hx
    have hall : ∀ x ∈ [("src", "a"), ("alt", "x"), ("loading", "eager"), ("data-loading", "b"), ("src", "c")],
        Markup.isAttrName x.1.toList = true ∧ '"' ∉ x.2.toList := by decide
    exact Inspect.sampleAttr_wellFormed (hall x hx).1 (hall x hx).2
  simp only [List.forall_mem_cons] at hattr
  obtain ⟨h₁, h₂, h₃, h₄, h₅, -⟩ := hattr
  simp only [sampleImages, List.forall_mem_cons]
  exact ⟨⟨⟨by decide, by simp [h₁], by decide, by decide, by decide⟩, by decide, by decide⟩,
    ⟨⟨by decide, by simp [h₂, h₃], by decide, by decide, by decide⟩, by decide, by decide⟩,
    ⟨⟨by decide, by simp [h₄, h₅], by decide, by decide, by decide⟩, by decide, by decide⟩, by simp⟩

/-- A document with these images, and with one in a shielded element. -/
def sampleGallery : List Char := ("<pre><img></pre><img src=\"a\"> 1 < 2 <IMG alt=\"x\" loading=\"eager\" />" ++
  "<img data-loading=\"b\" src=\"c\">").toList

/-- In the sample the first image gets both hints, and each of the others one. -/
theorem hintImages_sampleGallery : ImagesSpelled sampleGallery ∧
    hintImages sampleGallery = ("<pre><img></pre><img src=\"a\" loading=\"lazy\" decoding=\"async\"> 1 < 2 " ++
      "<img alt=\"x\" loading=\"eager\" decoding=\"async\"/>" ++
      "<img data-loading=\"b\" src=\"c\" decoding=\"async\">").toList ∧
    saved (parts (hintImages sampleGallery)) = ["<pre><img></pre>".toList] ∧
    hintImages (hintImages sampleGallery) = hintImages sampleGallery := by
  have hfound : findAll (Inspect.tag? "img") (masked sampleGallery) = sampleImages.map StartTag.text := by
    decide +kernel
  have hspelled : ImagesSpelled sampleGallery := by
    rw [ImagesSpelled, hfound]
    intro x hx
    obtain ⟨t, ht, rfl⟩ := List.mem_map.1 hx
    exact ⟨t, isImage_sampleImages t ht, rfl⟩
  obtain ⟨-, hsaved, -, hagain, -⟩ := hintImages_of_spelled hspelled
  refine ⟨hspelled, by decide +kernel, ?_, hagain⟩
  rw [hsaved]
  decide +kernel

end PagePress.Html.Shield
