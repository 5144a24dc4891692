import PagePress.Proofs.Shield.Tags

/-!
Metadata between shielded elements. Where every `<` outside of the elements begins a tag, the pass that
leaves out repeated metadata leaves out tags (`Dropped`), and what is left around them reads as before:
no closing tag comes about, hence no element, and no `meta` tag (`dedupeMetas_of_closed`).
-/

namespace PagePress.Reduce

open Text

variable {α κ : Type} [DecidableEq κ] {key : α → Option κ} {seen : List κ} {x : α} {l : List α} {k : κ}

/-! ### First members -/

/-- The members of a list without those whose key was seen before. -/
def unseen (key : α → Option κ) (seen : List κ) : List α → List α
  | [] => []
  | x :: l =>
    match key x with
    | none => x :: unseen key seen l
    | some k => if k ∈ seen then unseen key seen l else x :: unseen key (k :: seen) l

/-- The keys of a list. -/
abbrev keysOf (key : α → Option κ) (l : List α) : List κ := l.filterMap key

/-- The members of a list whose key no member in front of them has. -/
def firsts (key : α → Option κ) (l : List α) : List α :=
  ((l.zip l.inits).filter fun x => (key x.1).all (· ∉ keysOf key x.2)).map Prod.fst

theorem unseen_of_none (h : key x = none) : unseen key seen (x :: l) = x :: unseen key seen l := by
  rw [unseen, h]

theorem unseen_of_mem (h : key x = some k) (hk : k ∈ seen) :
    unseen key seen (x :: l) = unseen key seen l := by
  simp only [unseen, h, if_pos hk]

theorem unseen_of_not_mem (h : key x = some k) (hk : k ∉ seen) :
    unseen key seen (x :: l) = x :: unseen key (k :: seen) l := by
  simp only [unseen, h, if_neg hk]

theorem unseen_append_of_none {u : List α} (h : ∀ x ∈ u, key x = none) :
    unseen key seen (u ++ l) = u ++ unseen key seen l := by
  induction u with
  | nil => rfl
  | cons x u ih =>
    rw [List.cons_append, unseen_of_none (h x (by simp)), ih fun y hy => h y (by simp [hy])]
    rfl

/-- A member stays if its key is not among those seen, and not that of a member in front of it. -/
theorem unseen_eq (seen : List κ) (l : List α) : unseen key seen l =
    ((l.zip l.inits).filter fun x => (key x.1).all (· ∉ seen ++ keysOf key x.2)).map Prod.fst := by
  induction l generalizing seen with
  | nil => rfl
  | cons x l ih =>
    have hzip : (x :: l).zip (x :: l).inits = (x, []) :: (l.zip l.inits).map fun y => (y.1, x :: y.2) := by
      rw [List.inits_cons, List.zip_cons_cons, List.zip_map_right]
      rfl
    -- What follows a member is compared with its key as well.
    have hrest : ∀ seen', (∀ j, j ∈ seen' ↔ j ∈ seen ∨ key x = some j) →
        unseen key seen' l = (((l.zip l.inits).map fun y => (y.1, x :: y.2)).filter fun y =>
          (key y.1).all (· ∉ seen ++ keysOf key y.2)).map Prod.fst := by
      intro seen' hseen
      rw [ih, List.filter_map, List.map_map]
      refine congrArg (List.map Prod.fst) (List.filter_congr fun y _ => ?_)
      cases hy : key y.1 with
      | none => simp [hy]
      | some j =>
        have : j ∈ seen' ++ keysOf key y.2 ↔ j ∈ seen ++ keysOf key (x :: y.2) := by
          cases hx : key x <;> simp [hseen, hx, or_assoc, eq_comm]
        simp only [Function.comp_apply, hy, Option.all_some, this]
    rw [hzip]
    cases hx : key x with
    | none => rw [unseen_of_none hx, List.filter_cons_of_pos (by simp [hx]), hrest seen (by simp [hx])]; rfl
    | some k =>
      by_cases hk : k ∈ seen
      · rw [unseen_of_mem hx hk, List.filter_cons_of_neg (by simp [hx, hk]), hrest seen]
        intro j
        simp only [hx, Option.some.injEq, iff_self_or]
        rintro rfl
        exact hk
      · rw [unseen_of_not_mem hx hk, List.filter_cons_of_pos (by simp [hx, hk]), hrest (k :: seen)]
        · rfl
        · simp [hx, or_comm, eq_comm]

theorem unseen_nil (l : List α) : unseen key [] l = firsts key l := unseen_eq [] l

/-- The keys that stay are those not seen before, and each stays once. -/
theorem keysOf_unseen (seen : List κ) (l : List α) :
    (keysOf key (unseen key seen l)).Nodup ∧
      ∀ k, k ∈ keysOf key (unseen key seen l) ↔ k ∈ keysOf key l ∧ k ∉ seen := by
  induction l generalizing seen with
  | nil => simp [unseen]
  | cons x l ih =>
    cases hx : key x with
    | none =>
      rw [unseen_of_none hx]
      simpa [hx] using ih seen
    | some j =>
      by_cases hj : j ∈ seen
      · rw [unseen_of_mem hx hj]
        refine ⟨(ih seen).1, fun k => ?_⟩
        rw [(ih seen).2, keysOf, keysOf, List.filterMap_cons_some hx, List.mem_cons]
        refine ⟨fun h => ⟨.inr h.1, h.2⟩, fun h => ⟨h.1.resolve_left ?_, h.2⟩⟩
        rintro rfl
        exact h.2 hj
      · rw [unseen_of_not_mem hx hj]
        simp only [keysOf, List.filterMap_cons_some hx, List.nodup_cons, List.mem_cons]
        refine ⟨⟨fun h => ?_, (ih _).1⟩, fun k => ?_⟩
        · exact (((ih (j :: seen)).2 j).1 h).2 (by simp)
        · have := (ih (j :: seen)).2 k
          simp only [keysOf] at this
          rw [this, List.mem_cons, not_or]
          by_cases hkj : k = j
          · subst hkj
            simp [hj]
          · simp [hkj]

/-- The first member with a key is the same. -/
theorem find?_unseen (hk : k ∉ seen) :
    (unseen key seen l).find? (key · = some k) = l.find? (key · = some k) := by
  induction l generalizing seen with
  | nil => rfl
  | cons x l ih =>
    cases hx : key x with
    | none => simp [unseen_of_none hx, hx, ih hk]
    | some j =>
      by_cases hj : j ∈ seen
      · have hne : j ≠ k := fun h => hk (h ▸ hj)
        rw [unseen_of_mem hx hj, List.find?_cons_of_neg (by simpa [hx] using hne), ih hk]
      · rw [unseen_of_not_mem hx hj]
        by_cases hjk : j = k
        · simp [hx, hjk]
        · have hrest : k ∉ j :: seen := by simp [hk, Ne.symm hjk]
          simp [hx, hjk, ih hrest]

/-- Members without a key stay. -/
theorem filter_unseen (seen : List κ) (l : List α) :
    (unseen key seen l).filter (key · = none) = l.filter (key · = none) := by
  induction l generalizing seen with
  | nil => rfl
  | cons x l ih =>
    cases hx : key x with
    | none => simp [unseen_of_none hx, hx, ih]
    | some j =>
      by_cases hj : j ∈ seen
      · simp [unseen_of_mem hx hj, hx, ih]
      · simp [unseen_of_not_mem hx hj, hx, ih]

/-- Where no key is there twice, all members stay. -/
theorem unseen_eq_self (h : (keysOf key l).Nodup) (hseen : ∀ k ∈ keysOf key l, k ∉ seen) :
    unseen key seen l = l := by
  induction l generalizing seen with
  | nil => rfl
  | cons x l ih =>
    cases hx : key x with
    | none =>
      rw [keysOf, List.filterMap_cons_none hx] at h hseen
      rw [unseen_of_none hx, ih h hseen]
    | some j =>
      rw [keysOf, List.filterMap_cons_some hx] at h hseen
      rw [unseen_of_not_mem hx (hseen j (by simp)), ih (List.nodup_cons.1 h).2 fun k hk hm => ?_]
      rcases List.mem_cons.1 hm with rfl | hm
      · exact (List.nodup_cons.1 h).1 hk
      · exact hseen k (by simp [hk]) hm

/-! ### Metadata -/

/-- The key of what a scan for metadata found. -/
def metaKeyOf : Segment (Option (List Char)) → Option (List Char)
  | .plain _ => none
  | .piece _ key => key

/-- The tags that stay are those whose key was not seen. -/
theorem keepFirst_eq (seen : List (List Char)) (q : List (Segment (Option (List Char)))) :
    keepFirst seen q = Html.Shield.source (unseen metaKeyOf seen q) := by
  fun_induction keepFirst seen q with
  | case1 => rfl
  | case2 seen c q ih => rw [unseen_of_none rfl, ih, Html.Shield.source_plain]
  | case3 seen u q ih => rw [unseen_of_none rfl, ih, Html.Shield.source_piece]
  | case4 seen u k q hk ih =>
    have hkey : metaKeyOf (.piece u (some k)) = some k := rfl
    rw [unseen_of_mem hkey (by simpa using hk), ih]
  | case5 seen u k q hk ih =>
    have hkey : metaKeyOf (.piece u (some k)) = some k := rfl
    rw [unseen_of_not_mem hkey (by simpa using hk), ih, Html.Shield.source_piece]

end PagePress.Reduce

namespace PagePress.Html.Shield

open Text Reduce

variable {P : List Char → Prop} {p p' : List (Segment Unit)}

/-! ### Closing tags -/

/-- A closing tag for a name stands in a text. -/
def HoldsClose (w s : List Char) : Prop := ∃ u, u <:+ s ∧ (closeTag? sameCaseless w u).isSome = true

theorem HoldsClose.of_suffix {w s t : List Char} (h : HoldsClose w s) (hs : s <:+ t) : HoldsClose w t := by
  obtain ⟨u, hu, hclose⟩ := h
  exact ⟨u, hu.trans hs, hclose⟩

/-- A closing tag that begins in a tag ends in it, so that it stands there whatever follows. -/
theorem HoldsClose.tagText_append {w x s t : List Char} (h : HoldsClose w (tagText x ++ s))
    (hw : ∀ a ∈ w, sameCaseless a '>' = false) (hs : HoldsClose w s → HoldsClose w t) :
    HoldsClose w (tagText x ++ t) := by
  have behind : HoldsClose w s → HoldsClose w (tagText x ++ t) := fun h =>
    (hs h).of_suffix (List.suffix_append ..)
  obtain ⟨u, ⟨y, hy⟩, hclose⟩ := h
  rcases List.append_eq_append_iff.1 hy with ⟨a, ha, rfl⟩ | ⟨a, rfl, ha⟩
  · rcases List.eq_nil_or_concat a with rfl | ⟨a, c, rfl⟩
    · exact behind ⟨s, List.suffix_rfl, hclose⟩
    · obtain rfl : '>' = c := by
        rw [tagText, ← List.cons_append, List.concat_eq_append, ← List.append_assoc] at ha
        exact (List.cons.inj (List.append_inj' ha rfl).2).1
      refine ⟨a.concat '>' ++ t, ⟨y, by rw [← List.append_assoc, ← ha]⟩, ?_⟩
      exact isSome_closeTag?_append (isSome_closeTag?_of_append hw (by simp) hclose) t
  · exact behind ⟨u, ⟨a, ha.symm⟩, hclose⟩

/-! ### Segments without some tags -/

/-- Some segments, and the same segments without some of their tags. Those that stay have a property. -/
inductive Dropped (P : List Char → Prop) : List (Segment Unit) → List (Segment Unit) → Prop where
  | nil : Dropped P [] []
  | char {c : Char} {p p' : List (Segment Unit)} : c ≠ '<' → Dropped P p p' →
      Dropped P (.plain c :: p) (.plain c :: p')
  | keep {s : List Char} {p p' : List (Segment Unit)} : '<' ∉ s → '>' ∉ s → P s → Dropped P p p' →
      Dropped P ((tagText s).map .plain ++ p) ((tagText s).map .plain ++ p')
  | drop {s : List Char} {p p' : List (Segment Unit)} : '<' ∉ s → Dropped P p p' →
      Dropped P ((tagText s).map .plain ++ p) p'
  | element {u : List Char} {p p' : List (Segment Unit)} : Dropped P p p' →
      Dropped P (.piece u () :: p) (.piece u () :: p')

namespace Dropped

theorem tagged (h : Dropped P p p') : Tagged P p' := by
  induction h with
  | nil => exact .nil
  | char hc _ ih => exact .char hc ih
  | keep h₁ h₂ hP _ ih => exact .tag h₁ h₂ hP ih
  | drop _ _ ih => exact ih
  | element _ ih => exact .element ih

theorem saved_eq (h : Dropped P p p') : saved p' = saved p := by
  induction h with
  | nil => rfl
  | char _ _ ih => exact ih
  | keep _ _ _ _ ih => rw [saved_map_plain_append, saved_map_plain_append, ih]
  | drop _ _ ih => rw [saved_map_plain_append, ih]
  | @element u _ _ _ ih => exact congrArg (u :: ·) ih

theorem sublist (h : Dropped P p p') : (source p').Sublist (source p) := by
  induction h with
  | nil => exact .slnil
  | char _ _ ih => exact ih.cons_cons _
  | keep _ _ _ _ ih =>
    rw [source_append, source_append]
    exact ih.append_left _
  | drop _ _ ih =>
    rw [source_append]
    exact ih.trans (List.sublist_append_right ..)
  | element _ ih => exact ih.append_left _

/-- Closing tags do not come about where tags go. -/
theorem holdsClose (h : Dropped P p p') (hp : ∀ u ∈ saved p, IsElement u) {w : List Char}
    (hw : ∀ a ∈ w, sameCaseless a '>' = false) (hclose : HoldsClose w (source p')) :
    HoldsClose w (source p) := by
  induction h with
  | nil => exact hclose
  | @char c p p' hc h ih =>
    obtain ⟨u, hu, hclose⟩ := hclose
    rcases List.suffix_cons_iff.1 hu with rfl | hu
    · obtain ⟨w', space, v, hcut, -⟩ := isSome_closeTag?.1 hclose
      exact absurd (List.cons.inj hcut).1 hc
    · exact (ih hp ⟨u, hu, hclose⟩).of_suffix (List.suffix_cons ..)
  | @keep s p p' _ _ _ _ ih =>
    rw [saved_map_plain_append] at hp
    rw [source_append, source_map_plain] at hclose ⊢
    exact hclose.tagText_append hw (ih hp)
  | @drop s p p' _ _ ih =>
    rw [saved_map_plain_append] at hp
    rw [source_append]
    exact (ih hp hclose).of_suffix (List.suffix_append ..)
  | @element u p p' _ ih =>
    obtain ⟨x, rfl⟩ := exists_concat_of_isElement (hp u (List.mem_cons_self ..))
    exact hclose.tagText_append hw (ih fun v hv => hp v (List.mem_cons_of_mem _ hv))

/-- A tag that opens no element opens none where tags behind it go. -/
theorem shielded?_eq_none (h : Dropped P p p') (hp : ∀ u ∈ saved p, IsElement u) {s : List Char}
    (hs : '>' ∉ s) (hnone : shielded? none (tagText s ++ source p) = none) :
    shielded? none (tagText s ++ source p') = none := by
  by_contra hsome
  obtain ⟨name, hname, r, hr, v, hcut⟩ := exists_of_shielded? (s := s ++ '>' :: source p')
    (by rwa [tagText_append] at hsome)
  have hletters := nameLetter_of_forall₂ (isTagName_of_mem hname) hr.opens
  have hopening : '>' ∉ r.word ++ r.attrs := by
    rw [List.mem_append, not_or]
    exact ⟨fun hm => (hletters _ hm).ne (by decide) rfl, hr.attrs⟩
  rw [← List.append_assoc] at hcut
  obtain ⟨rfl, hrest⟩ := eq_and_eq_of_append_cons hs hopening hcut
  have hclose : HoldsClose r.word (source p') := ⟨r.closing ++ v, ⟨r.body, hrest.symm⟩,
    isSome_closeTag?.2 ⟨r.closingWord, r.space, v, rfl, hr.space, hr.closes⟩⟩
  obtain ⟨u, hu, hclose⟩ := h.holdsClose hp (not_sameCaseless_mark hletters) hclose
  have hend : endsWord (r.attrs ++ '>' :: source p) = true := by rw [endsWord_append_mark, hr.endsWord]
  exact shielded?_ne_none hname hr.opens hend hu hclose (by simp [tagText]) hnone

end Dropped

/-- A tag is scanned as one that opens no element. -/
theorem scanned_tag {s : List Char} (hs : '<' ∉ s) :
    Scanned ((tagText s).map .plain ++ p) ↔ shielded? none (tagText s ++ source p) = none ∧ Scanned p := by
  have htext : Scanned ((s ++ ['>']).map .plain ++ p) ↔ Scanned p := by
    rw [Scanned, source_append, source_map_plain, passes_shielded (by simp [hs]), forget_append,
      forget_map_plain, List.append_cancel_left_eq, Scanned]
  rw [tagText, List.map_cons, List.cons_append, scanned_plain_cons, htext, source_append, source_map_plain]
  rfl

/-- The scan for elements finds what is left when tags go. -/
theorem Dropped.scanned (h : Dropped P p p') (hp : ∀ u ∈ saved p, IsElement u) (hscan : Scanned p) :
    Scanned p' := by
  induction h with
  | nil => exact scanned_nil
  | char hc _ ih => exact scanned_plain_cons.2 ⟨shielded?_of_ne_mark hc _, ih hp (scanned_plain_cons.1 hscan).2⟩
  | keep h₁ h₂ _ h ih =>
    rw [saved_map_plain_append] at hp
    obtain ⟨hnone, hscan⟩ := (scanned_tag h₁).1 hscan
    exact (scanned_tag h₁).2 ⟨h.shielded?_eq_none hp h₂ hnone, ih hp hscan⟩
  | drop h₁ _ ih =>
    rw [saved_map_plain_append] at hp
    exact ih hp ((scanned_tag h₁).1 hscan).2
  | @element u _ _ _ ih =>
    have hu := hp u (List.mem_cons_self ..)
    exact (scanned_piece_cons hu).2 (ih (fun v hv => hp v (List.mem_cons_of_mem _ hv))
      ((scanned_piece_cons hu).1 hscan))

/-! ### Metadata between elements -/

theorem isTagName_meta : IsTagName "meta" := by
  have : ∀ a ∈ "meta".toList, a.isLower = true := by decide
  exact this

theorem passes_meta_placeholder (i : Nat) : Passes metaTag? (placeholder i) :=
  Markup.opensWith_meta.passes_of_first (by decide) (by decide) (mark_not_mem_tail i)

/-- The scan for metadata goes over a tag or takes it as a whole. -/
theorem passes_or_takes_meta {s : List Char} (h₁ : '<' ∉ s) (h₂ : '>' ∉ s) :
    Passes metaTag? (tagText s) ∨ ∃ key, Takes metaTag? (tagText s) key := by
  cases hstart : (tagStart? "meta" (tagText s)).isSome with
  | false =>
    refine .inl (passes_cons Markup.opensWith_meta.contextFree (fun v => ?_)
      (passes_text Markup.opensWith_meta.contextFree Markup.opensWith_meta.atMark (by simp [h₁])))
    rcases openTag?_tag isTagName_meta h₂ v with ⟨-, hnone⟩ | ⟨hsome, -⟩
    · show metaTag? none (tagText s ++ v) = none
      rw [metaTag?, hnone]
      rfl
    · rw [hstart] at hsome
      cases hsome
  | true =>
    refine .inr ⟨metaKey? (tagText s), takes_of_eq Markup.opensWith_meta.contextFree (tagText_ne_nil s) fun v => ?_⟩
    rcases openTag?_tag isTagName_meta h₂ v with ⟨hnone, -⟩ | ⟨-, k, hk, htext⟩
    · rw [hstart] at hnone
      cases hnone
    · exact ⟨k, by rw [metaTag?, hk, Option.map_some, htext], htext⟩

/-- Leaving out repeated metadata leaves out tags. -/
theorem exists_deduped (hp : Tagged P p) (seen : List (List Char)) :
    ∃ p', Dropped P p p' ∧ ∀ i, segments metaTag? (slots (number i p')) =
      unseen metaKeyOf seen (segments metaTag? (slots (number i p))) := by
  have hplain : ∀ (u : List Char), ∀ x ∈ u.map Segment.plain, metaKeyOf x = none := by simp [metaKeyOf]
  induction hp generalizing seen with
  | nil => exact ⟨[], .nil, fun _ => by simp [number, unseen]⟩
  | @char c p hc _ ih =>
    obtain ⟨p', hdrop, hslots⟩ := ih seen
    have hpass : ∀ v, segments metaTag? (c :: v) = .plain c :: segments metaTag? v :=
      passes_text Markup.opensWith_meta.contextFree Markup.opensWith_meta.atMark (u := [c])
        (by simpa using Ne.symm hc)
    refine ⟨.plain c :: p', .char hc hdrop, fun i => ?_⟩
    rw [number, number, slots_plain, slots_plain, hpass, hslots, hpass, unseen_of_none rfl]
  | @tag s p h₁ h₂ hP _ ih =>
    have hcut : ∀ (p : List (Segment Unit)) i, slots (number i ((tagText s).map .plain ++ p)) = tagText s ++ slots (number i p) :=
      fun p i => by rw [number_map_plain_append, slots_append, slots_map_plain]
    simp only [hcut]
    rcases passes_or_takes_meta h₁ h₂ with hpass | ⟨key, htake⟩
    · obtain ⟨p', hdrop, hslots⟩ := ih seen
      refine ⟨_, .keep h₁ h₂ hP hdrop, fun i => ?_⟩
      rw [hcut, hpass, hslots, hpass, unseen_append_of_none (hplain _)]
    · have hkey : metaKeyOf (.piece (tagText s) key) = key := rfl
      -- A tag with a key that was seen goes, and each other tag stays.
      cases key with
      | none =>
        obtain ⟨p', hdrop, hslots⟩ := ih seen
        refine ⟨_, .keep h₁ h₂ hP hdrop, fun i => ?_⟩
        rw [hcut, htake, hslots, htake, unseen_of_none hkey]
      | some k =>
        by_cases hk : k ∈ seen
        · obtain ⟨p', hdrop, hslots⟩ := ih seen
          refine ⟨p', .drop h₁ hdrop, fun i => ?_⟩
          rw [hslots, htake, unseen_of_mem hkey hk]
        · obtain ⟨p', hdrop, hslots⟩ := ih (k :: seen)
          refine ⟨_, .keep h₁ h₂ hP hdrop, fun i => ?_⟩
          rw [hcut, htake, hslots, htake, unseen_of_not_mem hkey hk]
  | @element u p _ ih =>
    obtain ⟨p', hdrop, hslots⟩ := ih seen
    refine ⟨.piece u () :: p', .element hdrop, fun i => ?_⟩
    rw [number, number, slots_piece, slots_piece, passes_meta_placeholder i, hslots,
      passes_meta_placeholder i, unseen_append_of_none (hplain _)]

/-- What the pass makes of the text around the elements. -/
theorem exists_kept (hp : Tagged P p) : ∃ p', Dropped P p p' ∧
    segments metaTag? (slots (number 0 p')) = firsts metaKeyOf (segments metaTag? (slots (number 0 p))) ∧
    keepFirst [] (segments metaTag? (slots (number 0 p))) = slots (number 0 p') := by
  obtain ⟨p', hdrop, hslots⟩ := exists_deduped hp []
  refine ⟨p', hdrop, by rw [hslots, unseen_nil], ?_⟩
  rw [keepFirst_eq, ← hslots]
  exact source_segments metaTag? _

/-- Leaving out repeated metadata keeps the elements of a text. -/
theorem exists_dedupeMetas (hp : Outline P p) :
    ∃ p', dedupeMetas (source p) = source p' ∧ Outline P p' ∧ saved p' = saved p := by
  obtain ⟨p', hdrop, -, hkept⟩ := exists_kept hp.tagged
  have hnul : '\x00' ∉ source p' := fun h => hp.nul (hdrop.sublist.subset h)
  refine ⟨p', hp.around_eq hkept hdrop.saved_eq hnul, ⟨hdrop.tagged, ?_, hnul⟩, hdrop.saved_eq⟩
  rw [hdrop.saved_eq]
  exact hp.elements

/-! ### Closed tags -/

/-- Every `<` has a `>` behind it, and no other `<` in between. -/
def TagsClosed (s : List Char) : Prop := ∀ v, '<' :: v <:+ s → '>' ∈ v.takeWhile (· != '<')

instance (s : List Char) : Decidable (TagsClosed s) :=
  decidable_of_iff (∀ u ∈ s.tails, u.head? = some '<' → '>' ∈ u.tail.takeWhile (· != '<')) (by
    constructor
    · intro h v hv
      exact h ('<' :: v) ((List.mem_tails ..).2 hv) rfl
    · intro h u hu hhead
      obtain ⟨v, rfl⟩ := List.head?_eq_some_iff.1 hhead
      exact h v ((List.mem_tails ..).1 hu))

theorem TagsClosed.of_suffix {s t : List Char} (h : TagsClosed t) (hs : s <:+ t) : TagsClosed s :=
  fun v hv => h v (hv.trans hs)

/-- No placeholder stands before the next `<`. -/
theorem exists_tag {i : Nat} (h : '>' ∈ (slots (number i p)).takeWhile (· != '<')) :
    ∃ (s : List Char) (p' : List (Segment Unit)), '<' ∉ s ∧ '>' ∉ s ∧
      p = s.map .plain ++ .plain '>' :: p' := by
  induction p with
  | nil => cases h
  | cons x p ih =>
    cases x with
    | plain c =>
      rw [number, slots_plain] at h
      by_cases hmark : c = '<'
      · rw [List.takeWhile_cons_of_neg (by simp [hmark])] at h
        cases h
      · by_cases hend : c = '>'
        · exact ⟨[], p, by simp, by simp, by rw [hend]; rfl⟩
        · rw [List.takeWhile_cons_of_pos (by simpa using hmark)] at h
          obtain ⟨s, p', h₁, h₂, rfl⟩ := ih (by simpa [Ne.symm hend] using h)
          exact ⟨c :: s, p', by simp [h₁, Ne.symm hmark], by simp [h₂, Ne.symm hend], rfl⟩
    | piece u a =>
      rw [number, slots_piece, placeholder, List.cons_append, List.cons_append,
        List.takeWhile_cons_of_neg (by decide)] at h
      cases h

/-- Where tags are closed, every `<` outside of the elements begins a tag. -/
theorem tagged_of_closed {i : Nat} (h : TagsClosed (slots (number i p))) : Tagged (fun _ => True) p := by
  induction hn : p.length using Nat.strongRecOn generalizing p i with
  | _ n ih =>
    cases p with
    | nil => exact .nil
    | cons x p =>
      cases x with
      | plain c =>
        rw [number, slots_plain] at h
        by_cases hc : c = '<'
        · subst hc
          obtain ⟨s, p, h₁, h₂, rfl⟩ := exists_tag (h _ List.suffix_rfl)
          have htag : Segment.plain '<' :: (s.map .plain ++ .plain '>' :: p) =
              (tagText s).map .plain ++ p := by simp [tagText]
          rw [htag]
          have hrest : slots (number i p) <:+ '<' :: slots (number i (s.map .plain ++ .plain '>' :: p)) :=
            ⟨'<' :: (s ++ ['>']), by simp [number]⟩
          exact .tag h₁ h₂ trivial (ih _ (by simp at hn; omega) (h.of_suffix hrest) rfl)
        · exact .char hc (ih _ (by simp at hn; omega) (h.of_suffix (List.suffix_cons ..)) rfl)
      | piece u a =>
        rw [number, slots_piece] at h
        exact .element (ih _ (by simp at hn; omega) (h.of_suffix (List.suffix_append ..)) rfl)

/-! ### Documents -/

/-- What the scan for metadata finds outside of the elements of a document. -/
def metas (html : List Char) : List (Segment (Option (List Char))) := segments metaTag? (masked html)

/-- Of the `meta` tags with one key outside of the elements the first stays and the others go, where
tags are closed. Everything else is left as it was, the elements too, and there is nothing left to do. -/
theorem dedupeMetas_of_closed {html : List Char} (h : TagsClosed (masked html)) :
    metas (dedupeMetas html) = firsts metaKeyOf (metas html) ∧
      (keysOf metaKeyOf (metas (dedupeMetas html))).Nodup ∧
      (∀ k, (metas (dedupeMetas html)).find? (metaKeyOf · = some k) =
        (metas html).find? (metaKeyOf · = some k)) ∧
      (∀ k, k ∈ keysOf metaKeyOf (metas (dedupeMetas html)) ↔ k ∈ keysOf metaKeyOf (metas html)) ∧
      (metas (dedupeMetas html)).filter (metaKeyOf · = none) = (metas html).filter (metaKeyOf · = none) ∧
      saved (parts (dedupeMetas html)) = saved (parts html) ∧ '\x00' ∉ dedupeMetas html ∧
      dedupeMetas (dedupeMetas html) = dedupeMetas html := by
  have hclosed : TagsClosed (slots (number 0 (parts html))) := by rwa [← maskFrom_eq]
  obtain ⟨p', hdrop, hmetas, hkept⟩ := exists_kept (tagged_of_closed hclosed)
  obtain ⟨hscanned, helements⟩ := scanned_segments (dropNul html)
  have hnul : '\x00' ∉ source p' := fun hm => nul_not_mem_parts html (hdrop.sublist.subset hm)
  have hresult : dedupeMetas html = source p' := around_of_saved hkept hdrop.saved_eq hnul
  have hparts : parts (dedupeMetas html) = p' := by
    have hp' := hdrop.scanned (fun u hu => helements u () (mem_saved.1 hu)) hscanned
    rw [hresult, parts, Markup.dropNul_of_not_mem hnul, hp', forget_unit]
  have hfirsts : metas (dedupeMetas html) = firsts metaKeyOf (metas html) := by
    rw [metas, metas, masked, masked, maskFrom_eq, maskFrom_eq, hparts, hmetas]
  rw [← unseen_nil] at hfirsts
  have hkeys : (keysOf metaKeyOf (unseen metaKeyOf [] (metas html))).Nodup ∧ _ := keysOf_unseen [] (metas html)
  rw [← hfirsts] at hkeys
  refine ⟨by rw [hfirsts, unseen_nil], hkeys.1, fun k => ?_, fun k => ?_, ?_, ?_, by rwa [hresult], ?_⟩
  · rw [hfirsts, find?_unseen (by simp)]
  · simpa using hkeys.2 k
  · rw [hfirsts, filter_unseen]
  · rw [hparts, hdrop.saved_eq]
  · -- All keys are different now, so that every tag stays.
    have hstay : keepFirst [] (segments metaTag? (slots (number 0 (parts (dedupeMetas html))))) =
        slots (number 0 p') := by
      have hnodup := hkeys.1
      rw [metas, masked, maskFrom_eq, hparts] at hnodup
      rw [hparts, keepFirst_eq, unseen_eq_self hnodup (by simp)]
      exact source_segments metaTag? _
    calc dedupeMetas (dedupeMetas html) = source p' := around_of_saved hstay (by rw [hparts]) hnul
      _ = dedupeMetas html := hresult.symm

/-- A document with metadata, some of it in a shielded element. -/
def sampleHead : List Char :=
  ("<meta charset=a><meta name='A'><pre><meta name='a'></pre><META property='a'>" ++
    "<meta name=b http-equiv='B'> <p>").toList

theorem masked_sampleHead : masked sampleHead = ("<meta charset=a><meta name='A'><\x000\x00>" ++
    "<META property='a'><meta name=b http-equiv='B'> <p>").toList := by
  decide +kernel

/-- In the sample the second tag with the first key goes. -/
theorem dedupeMetas_sampleHead : TagsClosed (masked sampleHead) ∧
    keysOf metaKeyOf (metas sampleHead) = [['a'], ['a'], ['b']] ∧
      keysOf metaKeyOf (metas (dedupeMetas sampleHead)) = [['a'], ['b']] ∧
      saved (parts (dedupeMetas sampleHead)) = ["<pre><meta name='a'></pre>".toList] ∧
      dedupeMetas (dedupeMetas sampleHead) = dedupeMetas sampleHead := by
  have hclosed : TagsClosed (masked sampleHead) := by
    rw [masked_sampleHead]
    decide
  obtain ⟨hmetas, -, -, -, -, hsaved, -, hagain⟩ := dedupeMetas_of_closed hclosed
  refine ⟨hclosed, ?_, ?_, ?_, hagain⟩
  · rw [metas, masked_sampleHead]
    decide +kernel
  · rw [hmetas, metas, masked_sampleHead]
    decide +kernel
  · rw [hsaved]
    decide +kernel

end PagePress.Html.Shield
