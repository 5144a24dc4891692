import PagePress.Proofs.Shield.Blanks

/-!
Outlines. In a text with an outline every `<` outside of the shielded elements opens a tag, and that
tag opens no shielded element (`Outline`). What treats each tag by itself, be it an edit (`EditsTags`)
or the squeezing of white space, keeps every element of such a text.
-/

namespace PagePress.Html.Shield

open Text Reduce

/-! ### Outlines -/

/-- Outside of the elements every `<` begins a tag, which has a property; the property is one of
what stands between the marks of the tag. -/
inductive Tagged (P : List Char → Prop) : List (Segment Unit) → Prop where
  | nil : Tagged P []
  | char {c : Char} {p : List (Segment Unit)} : c ≠ '<' → Tagged P p → Tagged P (.plain c :: p)
  | tag {s : List Char} {p : List (Segment Unit)} : '<' ∉ s → '>' ∉ s → P s → Tagged P p →
      Tagged P ((tagText s).map .plain ++ p)
  | element {u : List Char} {p : List (Segment Unit)} : Tagged P p → Tagged P (.piece u () :: p)

/-- The segments of a text without NUL: tags with a property, none of which opens a shielded
element, shielded elements, and other characters. -/
structure Outline (P : List Char → Prop) (p : List (Segment Unit)) : Prop where
  tagged : Tagged (fun s => Unshielded s ∧ P s) p
  elements : ∀ u ∈ saved p, IsElement u
  nul : '\x00' ∉ source p

variable {P Q : List Char → Prop} {p : List (Segment Unit)}

theorem Tagged.imp (h : Tagged P p)
    (himp : ∀ s, tagText s <:+: source p → P s → Q s) : Tagged Q p := by
  induction h with
  | nil => exact .nil
  | char hc _ ih =>
    exact .char hc (ih fun s hs => himp s (hs.trans (List.suffix_cons _ _).isInfix))
  | @tag s p h₁ h₂ hP _ ih =>
    refine .tag h₁ h₂ (himp s ⟨[], source p, by simp⟩ hP) (ih fun t ht => himp t (ht.trans ?_))
    rw [source_append]
    exact (List.suffix_append _ _).isInfix
  | @element u p _ ih =>
    refine .element (ih fun s hs => himp s (hs.trans ?_))
    rw [source_piece]
    exact (List.suffix_append _ _).isInfix

theorem Tagged.text {s : List Char} (hs : '<' ∉ s) (h : Tagged P p) : Tagged P (s.map .plain ++ p) := by
  induction s with
  | nil => exact h
  | cons c s ih =>
    rw [List.mem_cons, not_or] at hs
    exact .char (Ne.symm hs.1) (ih hs.2)

@[simp] theorem saved_map_plain_append (s : List Char) (p : List (Segment Unit)) :
    saved (s.map .plain ++ p) = saved p := Markup.saved_plain s p

/-- The scan for shielded elements finds the outline of a text. -/
theorem Outline.scanned (h : Outline P p) : Scanned p := by
  obtain ⟨htagged, helements, -⟩ := h
  induction htagged with
  | nil => exact scanned_nil
  | char hc _ ih => exact scanned_plain_cons.2 ⟨shielded?_of_ne_mark hc _, ih helements⟩
  | @tag s p h₁ _ hP _ ih =>
    have hp := ih (by rwa [saved_map_plain_append] at helements)
    rw [Scanned, source_append, source_map_plain, passes_shielded_tag h₁ hP.1, forget_append,
      forget_map_plain, hp]
  | element _ ih =>
    exact (scanned_piece_cons (helements _ (List.mem_cons_self ..))).2
      (ih fun v hv => helements v (List.mem_cons_of_mem _ hv))

theorem Outline.parts_eq (h : Outline P p) : parts (source p) = p := by
  rw [parts, Markup.dropNul_of_not_mem h.nul, h.scanned, forget_unit]

theorem Outline.around_eq (h : Outline P p) {change : List Char → List Char} {p' : List (Segment Unit)}
    (hchange : change (slots (number 0 p)) = slots (number 0 p')) (hsaved : saved p' = saved p)
    (hnul : '\x00' ∉ source p') : around change (source p) = source p' := by
  rw [← h.parts_eq] at hchange hsaved
  rw [around_of_saved (h := source p) hchange hsaved hnul]

/-! ### Edits of tags -/

/-- A recogniser that puts other text between the marks of each tag with a property, and passes over
placeholders. -/
structure EditsTags (r : Recognizer (List Char)) (P : List Char → Prop) (g : List Char → List Char) :
    Prop where
  contextFree : ContextFree r
  atMark : AtMark r
  placeholder : ∀ i, Passes r (placeholder i)
  tag : ∀ s, '<' ∉ s → '>' ∉ s → P s → ∀ v,
    replaceAll r (tagText s ++ v) = tagText (g s) ++ replaceAll r v

/-- The tags of a text are edited one by one. -/
theorem EditsTags.exists_edited {r : Recognizer (List Char)} {g : List Char → List Char}
    (hr : EditsTags r P g) (hg : ∀ s, '<' ∉ s → '>' ∉ s → P s →
      (∀ c ∈ g s, c ∈ s ∨ c ≠ '<' ∧ c ≠ '>' ∧ c ≠ '\x00') ∧ Q (g s)) (hp : Tagged P p) :
    ∃ p', (∀ i, replaceAll r (slots (number i p)) = slots (number i p')) ∧ Tagged Q p' ∧
      saved p' = saved p ∧ ('\x00' ∉ source p → '\x00' ∉ source p') := by
  induction hp with
  | nil => exact ⟨[], fun _ => replaceAll_nil r, .nil, rfl, id⟩
  | @char c p hc _ ih =>
    obtain ⟨p', hslots, htagged, hsaved, hnul⟩ := ih
    refine ⟨.plain c :: p', fun i => ?_, .char hc htagged, hsaved, fun h => ?_⟩
    · rw [number, slots_plain, replaceAll_of_none hr.contextFree (hr.atMark c _ hc), hslots]
      rfl
    · rw [source_plain, List.mem_cons, not_or] at h ⊢
      exact ⟨h.1, hnul h.2⟩
  | @tag s p h₁ h₂ hP _ ih =>
    obtain ⟨p', hslots, htagged, hsaved, hnul⟩ := ih
    obtain ⟨hmem, hQ⟩ := hg s h₁ h₂ hP
    refine ⟨(tagText (g s)).map .plain ++ p', fun i => ?_, .tag ?_ ?_ hQ htagged, ?_, fun h => ?_⟩
    · rw [number_map_plain_append, number_map_plain_append, slots_append, slots_map_plain, hr.tag s h₁ h₂ hP,
        hslots, slots_append, slots_map_plain]
    · exact fun h => (hmem _ h).elim h₁ fun h => h.1 rfl
    · exact fun h => (hmem _ h).elim h₂ fun h => h.2.1 rfl
    · rw [saved_map_plain_append, saved_map_plain_append, hsaved]
    · rw [source_append, source_map_plain, List.mem_append, not_or] at h ⊢
      refine ⟨fun hm => ?_, hnul h.2⟩
      simp only [mem_tagText] at h hm
      rcases hm with hm | hm | hm
      · exact absurd hm (by decide)
      · exact (hmem _ hm).elim (fun hm => h.1 (.inr (.inl hm))) fun h => h.2.2 rfl
      · exact absurd hm (by decide)
  | @element u p _ ih =>
    obtain ⟨p', hslots, htagged, hsaved, hnul⟩ := ih
    refine ⟨.piece u () :: p', fun i => ?_, .element htagged, congrArg (u :: ·) hsaved, fun h => ?_⟩
    · rw [number, slots_piece, (hr.placeholder i).replaceAll, hslots]
      rfl
    · rw [source_piece, List.mem_append, not_or] at h ⊢
      exact ⟨h.1, hnul h.2⟩

/-- Editing the tags of a text keeps its elements. -/
theorem EditsTags.around {r : Recognizer (List Char)} {g : List Char → List Char}
    (hr : EditsTags r (fun s => Unshielded s ∧ P s) g)
    (hg : ∀ s, '<' ∉ s → '>' ∉ s → Unshielded s ∧ P s →
      (∀ c ∈ g s, c ∈ s ∨ c ≠ '<' ∧ c ≠ '>' ∧ c ≠ '\x00') ∧ Unshielded (g s) ∧ Q (g s))
    (hp : Outline P p) :
    ∃ p', around (replaceAll r) (source p) = source p' ∧ Outline Q p' ∧ saved p' = saved p := by
  obtain ⟨p', hslots, htagged, hsaved, hnul⟩ := hr.exists_edited (Q := fun s => Unshielded s ∧ Q s) hg hp.tagged
  refine ⟨p', hp.around_eq (hslots 0) hsaved (hnul hp.nul), ⟨htagged, ?_, hnul hp.nul⟩, hsaved⟩
  rw [hsaved]
  exact hp.elements

/-! ### White space -/

/-- A tag is thinned between its marks. -/
theorem exists_of_thinned_tag {s : List Char} (hs : '>' ∉ s) {b : Bool} {rest q : List (Segment Nat)}
    (h : ThinnedParts b (s.map .plain ++ .plain '>' :: rest) q) :
    ∃ s' q', q = s'.map .plain ++ .plain '>' :: q' ∧ ThinnedText b (s ++ ['>']) (s' ++ ['>']) ∧
      (∀ c ∈ s', c ∈ s ∨ isBlank c = true) ∧ ThinnedParts true rest q' := by
  induction s generalizing b q with
  | nil =>
    obtain ⟨q', rfl, hrest⟩ := h.of_solid (u := []) (by simp) (by decide)
    exact ⟨[], q', rfl, .append_left [] (by decide) (.trail (by simp)) b, by simp, hrest⟩
  | cons c s ih =>
    rw [List.mem_cons, not_or] at hs
    rw [List.map_cons, List.cons_append] at h
    have hmem : ∀ {s' : List Char}, (∀ d ∈ s', d ∈ s ∨ isBlank d = true) →
        ∀ d ∈ s', d ∈ c :: s ∨ isBlank d = true :=
      fun h d hd => (h d hd).imp_left (List.mem_cons_of_mem _)
    cases h with
    | keep hc h =>
      obtain ⟨s', q', rfl, htext, hs', hrest⟩ := ih hs.2 h
      exact ⟨c :: s', q', rfl, .keep hc htext, List.forall_mem_cons.2 ⟨.inl (by simp), hmem hs'⟩, hrest⟩
    | @space _ _ d _ _ hc hd h =>
      obtain ⟨s', q', rfl, htext, hs', hrest⟩ := ih hs.2 h
      cases d with
      | plain d =>
        exact ⟨d :: s', q', rfl, .space hc hd htext, List.forall_mem_cons.2 ⟨.inr hd, hmem hs'⟩, hrest⟩
      | piece => cases hd
    | drop hc h =>
      obtain ⟨s', q', rfl, htext, hs', hrest⟩ := ih hs.2 h
      exact ⟨s', q', rfl, .drop hc htext, hmem hs', hrest⟩
    | trail hall =>
      have : isBlank '>' = true := hall (.plain '>') (by simp)
      exact absurd this (by decide)

/-- The tags of a thinned text are thinned tags. -/
theorem tagged_of_thinned (hp : Tagged P p)
    (hPQ : ∀ s s', P s → ThinnedText false (s ++ ['>']) (s' ++ ['>']) → Q s') {b : Bool} {i : Nat}
    {q : List (Segment Nat)} (h : ThinnedParts b (number i p) q) : Tagged Q (forget q) := by
  induction hp generalizing b i q with
  | nil =>
    cases h with
    | trail => exact .nil
  | @char c p hc _ ih =>
    rw [number] at h
    cases h with
    | keep _ h => exact .char hc (ih h)
    | @space _ _ d _ _ _ hd h =>
      cases d with
      | plain d =>
        refine .char ?_ (ih h)
        rintro rfl
        exact absurd hd (by decide)
      | piece => cases hd
    | drop _ h => exact ih h
    | trail => exact .nil
  | @tag s p h₁ h₂ hP _ ih =>
    rw [number_map_plain_append, tagText, List.map_cons, List.cons_append] at h
    obtain ⟨q', rfl, htail⟩ := h.of_solid (u := []) (by simp) (by decide)
    rw [List.map_append, List.append_assoc, List.map_singleton, List.singleton_append] at htail
    obtain ⟨s', q', rfl, hthin, hmem, hrest⟩ := exists_of_thinned_tag h₂ htail
    have htag : forget ([] ++ .plain '<' :: (s'.map .plain ++ .plain '>' :: q')) =
        (tagText s').map .plain ++ forget q' := by simp [tagText]
    rw [htag]
    refine .tag ?_ ?_ (hPQ s s' hP hthin) (ih hrest)
    · exact fun hm => (hmem _ hm).elim h₁ fun h => absurd h (by decide)
    · exact fun hm => (hmem _ hm).elim h₂ fun h => absurd h (by decide)
  | @element u p _ ih =>
    rw [number] at h
    obtain ⟨q', rfl, hrest⟩ := h.of_solid (u := []) (by simp) rfl
    exact .element (ih hrest)

/-- A tag that opens no shielded element does not when it is thinned. -/
theorem unshielded_of_thinned {s s' : List Char} (h : ThinnedText false (s ++ ['>']) (s' ++ ['>']))
    (hs : Unshielded s) : Unshielded s' := by
  intro name hname
  cases hstart : tagStart? name (tagText s') with
  | none => rfl
  | some k =>
    obtain ⟨w, htext, hw, hend⟩ := tagStart?_some hstart
    have hcut := k.append_eq
    rw [htext] at hcut
    have hletters := nameLetter_of_forall₂ (isTagName_of_mem hname) hw
    rw [show s' ++ ['>'] = w ++ k.rest from (List.cons.inj hcut).2.symm] at h
    obtain ⟨r, hr, hthin⟩ := h.solid_prefix fun c hc =>
      ⟨(hletters c hc).isBlank, beq_false_of_ne (hletters c hc).ne⟩
    obtain ⟨k', hk', -⟩ := tagStart?_gives hw (endsWord_of_thinned hthin hend) (s := tagText s)
      (by rw [tagText, hr])
    rw [hs name hname] at hk'
    cases hk'

/-- Squeezing keeps the elements of a text, and each of its tags is thinned. -/
theorem exists_collapsed (hp : Outline P p)
    (hPQ : ∀ s s', P s → ThinnedText false (s ++ ['>']) (s' ++ ['>']) → Q s') :
    ∃ p', collapseBlanks (source p) = source p' ∧ Outline Q p' ∧ saved p' = saved p := by
  obtain ⟨q, -, hthin, hq⟩ := exists_collapseBlanks (source p)
  rw [hp.parts_eq] at hthin
  have hsaved : saved (forget q) = saved p := by
    rw [← saved_forget_filter q, hthin.filter_eq, saved_forget_filter, forget_number, forget_unit]
  have hpieces : ∀ u i, Segment.piece u i ∈ number 0 p → IsElement u := fun u i hu => by
    obtain ⟨a, ha⟩ := mem_number hu
    exact hp.elements u (mem_saved.2 ha)
  refine ⟨forget q, by rw [hq, source_forget], ⟨?_, ?_, ?_⟩, hsaved⟩
  · exact tagged_of_thinned hp.tagged
      (fun s s' hs h => ⟨unshielded_of_thinned h hs.1, hPQ s s' hs.2 h⟩) hthin
  · rw [hsaved]
    exact hp.elements
  · rw [source_forget]
    intro hm
    rcases (thinned_source hthin hpieces).mem hm with hm | hm
    · rw [source_number] at hm
      exact hp.nul hm
    · exact absurd hm (by decide)

end PagePress.Html.Shield
