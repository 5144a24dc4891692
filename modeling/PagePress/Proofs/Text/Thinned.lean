import PagePress.Proofs.Text.Blank

/-!
Texts with less white space. `Thinned` relates a list to one from which white space has gone, in
the places where squeezing lets it go: behind other white space, behind the end of a tag, and at
the end of the text. The relation is stated for lists of any kind, so that it can be read on the
characters of a text and on its segments alike. What stands in the thinned list is found again in
the first one (`Thinned.split`, `Thinned.solid_prefix`).
-/

namespace PagePress.Text

open Reduce

/-- The second list is the first one with less white space. White space goes behind a member that
`closes` and behind other white space, which the flag tells, and at the end; what stays may change
into other white space. -/
inductive Thinned {σ : Type} (blank closes : σ → Bool) : Bool → List σ → List σ → Prop where
  | keep {b : Bool} {c : σ} {s t : List σ} : blank c = false →
      Thinned blank closes (closes c) s t → Thinned blank closes b (c :: s) (c :: t)
  | space {b : Bool} {c d : σ} {s t : List σ} : blank c = true → blank d = true →
      Thinned blank closes true s t → Thinned blank closes b (c :: s) (d :: t)
  | drop {c : σ} {s t : List σ} : blank c = true →
      Thinned blank closes true s t → Thinned blank closes true (c :: s) t
  | trail {b : Bool} {s : List σ} : (∀ c ∈ s, blank c = true) → Thinned blank closes b s []

namespace Thinned

variable {σ : Type} {blank closes : σ → Bool} {b : Bool} {s t u : List σ} {c : σ}

theorem loosen (h : Thinned blank closes false s t) (b : Bool) : Thinned blank closes b s t := by
  cases h with
  | keep hc h => exact .keep hc h
  | space hc hd h => exact .space hc hd h
  | trail hs => exact .trail hs

theorem append_left (u : List σ) (hc : blank c = false) (h : Thinned blank closes (closes c) s t) (b : Bool) :
    Thinned blank closes b (u ++ c :: s) (u ++ c :: t) := by
  induction u generalizing b with
  | nil => exact .keep hc h
  | cons d u ih =>
    by_cases hd : blank d = true
    · exact .space hd hd (ih true)
    · exact .keep (by simpa using hd) (ih _)

theorem append_trail (hs : ∀ c ∈ s, blank c = true) (u : List σ) (b : Bool) :
    Thinned blank closes b (u ++ s) u := by
  induction u generalizing b with
  | nil => exact .trail hs
  | cons c u ih =>
    by_cases hc : blank c = true
    · exact .space hc hc (ih true)
    · exact .keep (by simpa using hc) (ih _)

theorem all_blank (h : Thinned blank closes b s t) (ht : ∀ c ∈ t, blank c = true) :
    ∀ c ∈ s, blank c = true := by
  induction h with
  | keep hc _ _ =>
    have := ht _ (List.mem_cons_self ..)
    rw [hc] at this
    cases this
  | space hc _ _ ih =>
    exact List.forall_mem_cons.2 ⟨hc, ih fun d hd => ht d (List.mem_cons_of_mem _ hd)⟩
  | drop hc _ ih => exact List.forall_mem_cons.2 ⟨hc, ih ht⟩
  | trail hs => exact hs

theorem trans (h : Thinned blank closes b s t) (h' : Thinned blank closes b t u) :
    Thinned blank closes b s u := by
  induction h generalizing u with
  | keep hc _ ih =>
    cases h' with
    | keep _ h' => exact .keep hc (ih h')
    | space hblank =>
      rw [hc] at hblank
      cases hblank
    | drop hblank =>
      rw [hc] at hblank
      cases hblank
    | trail ht =>
      have := ht _ (List.mem_cons_self ..)
      rw [hc] at this
      cases this
  | space hc hd h ih =>
    cases h' with
    | keep hblank =>
      rw [hd] at hblank
      cases hblank
    | space _ he h' => exact .space hc he (ih h')
    | drop _ h' => exact .drop hc (ih h')
    | trail ht =>
      exact .trail (List.forall_mem_cons.2
        ⟨hc, h.all_blank fun d hd => ht d (List.mem_cons_of_mem _ hd)⟩)
  | drop hc _ ih => exact .drop hc (ih h')
  | trail hs =>
    cases h' with
    | trail => exact .trail hs

theorem mem (h : Thinned blank closes b s t) (hc : c ∈ t) : c ∈ s ∨ blank c = true := by
  induction h with
  | keep _ _ ih =>
    rcases List.mem_cons.1 hc with hc | hc
    · exact .inl (by simp [hc])
    · exact (ih hc).imp_left (List.mem_cons_of_mem _)
  | space _ hd _ ih =>
    rcases List.mem_cons.1 hc with hc | hc
    · exact .inr (hc ▸ hd)
    · exact (ih hc).imp_left (List.mem_cons_of_mem _)
  | drop _ _ ih => exact (ih hc).imp_left (List.mem_cons_of_mem _)
  | trail => cases hc

/-- What is not white space stays. -/
theorem filter_eq (h : Thinned blank closes b s t) :
    t.filter (fun c => !blank c) = s.filter fun c => !blank c := by
  induction h with
  | keep hc _ ih => simp [hc, ih]
  | space hc hd _ ih => simp [hc, hd, ih]
  | drop hc _ ih => simp [hc, ih]
  | trail hs => simpa [List.filter_eq_nil_iff] using hs

/-! ### Reading forwards -/

/-- A part without white space stays in front of what follows. -/
theorem of_solid (hu : ∀ d ∈ u, blank d = false) (hc : blank c = false)
    (h : Thinned blank closes b (u ++ c :: s) t) :
    ∃ t', t = u ++ c :: t' ∧ Thinned blank closes (closes c) s t' := by
  have solid : ∀ {d : σ} {b : Bool} {s t : List σ}, blank d = false →
      Thinned blank closes b (d :: s) t → ∃ t', t = d :: t' ∧ Thinned blank closes (closes d) s t' := by
    intro d b s t hd h
    cases h with
    | keep _ h => exact ⟨_, rfl, h⟩
    | space hblank =>
      rw [hd] at hblank
      cases hblank
    | drop hblank =>
      rw [hd] at hblank
      cases hblank
    | trail hs =>
      have := hs d (by simp)
      rw [hd] at this
      cases this
  induction u generalizing b t with
  | nil => exact solid hc h
  | cons d u ih =>
    obtain ⟨t', rfl, h'⟩ := solid (hu d (by simp)) h
    obtain ⟨t'', rfl, h''⟩ := ih (fun e he => hu e (by simp [he])) h'
    exact ⟨t'', rfl, h''⟩

/-! ### Reading backwards -/

/-- Where no white space may go, the front of the thinned list is the front of the first one. -/
theorem solid_prefix (hu : ∀ d ∈ u, blank d = false ∧ closes d = false)
    (h : Thinned blank closes false s (u ++ t)) : ∃ s', s = u ++ s' ∧ Thinned blank closes false s' t := by
  induction u generalizing s with
  | nil => exact ⟨s, rfl, h⟩
  | cons d u ih =>
    obtain ⟨hblank, hcloses⟩ := hu d (by simp)
    rw [List.cons_append] at h
    cases h with
    | keep _ h =>
      rw [hcloses] at h
      obtain ⟨s', rfl, h'⟩ := ih (fun e he => hu e (by simp [he])) h
      exact ⟨s', rfl, h'⟩
    | space _ hd =>
      rw [hblank] at hd
      cases hd

/-- A member of the thinned list that is not white space stands in the first one, and what follows
it there is thinned to what follows it here. -/
theorem split (hc : blank c = false) (h : Thinned blank closes b s (u ++ c :: t)) :
    ∃ s₁ s₂, s = s₁ ++ c :: s₂ ∧ Thinned blank closes (closes c) s₂ t := by
  generalize hv : u ++ c :: t = v at h
  induction h generalizing u with
  | @keep b d s₁ t₁ hd h ih =>
    cases u with
    | nil =>
      obtain ⟨rfl, rfl⟩ := List.cons.inj hv
      exact ⟨[], s₁, rfl, h⟩
    | cons e u =>
      obtain ⟨s₂, s₃, rfl, h'⟩ := ih (List.cons.inj hv).2
      exact ⟨d :: s₂, s₃, rfl, h'⟩
  | @space b d e s₁ t₁ hd he h ih =>
    cases u with
    | nil =>
      obtain ⟨rfl, -⟩ := List.cons.inj hv
      rw [hc] at he
      cases he
    | cons f u =>
      obtain ⟨s₂, s₃, rfl, h'⟩ := ih (List.cons.inj hv).2
      exact ⟨d :: s₂, s₃, rfl, h'⟩
  | @drop d s₁ t₁ hd h ih =>
    obtain ⟨s₂, s₃, rfl, h'⟩ := ih hv
    exact ⟨d :: s₂, s₃, rfl, h'⟩
  | trail => simp at hv

/-- White space in front of a member comes from white space in front of it. -/
theorem blanks (hu : ∀ d ∈ u, blank d = true) (hc : blank c = false)
    (h : Thinned blank closes b s (u ++ c :: t)) :
    ∃ u' s', s = u' ++ c :: s' ∧ (∀ d ∈ u', blank d = true) ∧
      Thinned blank closes (closes c) s' t := by
  generalize hv : u ++ c :: t = v at h
  induction h generalizing u with
  | @keep b d s₁ t₁ hd h ih =>
    cases u with
    | nil =>
      obtain ⟨rfl, rfl⟩ := List.cons.inj hv
      exact ⟨[], s₁, rfl, by simp, h⟩
    | cons e u =>
      obtain ⟨rfl, -⟩ := List.cons.inj hv
      have := hu e (by simp)
      rw [hd] at this
      cases this
  | @space b d e s₁ t₁ hd he h ih =>
    cases u with
    | nil =>
      obtain ⟨rfl, -⟩ := List.cons.inj hv
      rw [hc] at he
      cases he
    | cons f u =>
      obtain ⟨u', s', rfl, hu', h'⟩ := ih (fun x hx => hu x (by simp [hx])) (List.cons.inj hv).2
      exact ⟨d :: u', s', rfl, List.forall_mem_cons.2 ⟨hd, hu'⟩, h'⟩
  | @drop d s₁ t₁ hd h ih =>
    obtain ⟨u', s', rfl, hu', h'⟩ := ih hu hv
    exact ⟨d :: u', s', rfl, List.forall_mem_cons.2 ⟨hd, hu'⟩, h'⟩
  | trail => simp at hv

end Thinned

/-! ### Squeezing -/

/-- A text with less white space: it goes behind the end of a tag. -/
abbrev ThinnedText : Bool → List Char → List Char → Prop := Thinned isBlank (· == '>')

theorem thinned_collapseFrom (b : Bool) (s : List Char) : ThinnedText b s (collapseFrom b s) := by
  induction s generalizing b with
  | nil => exact .trail (by simp)
  | cons c s ih =>
    unfold collapseFrom
    split
    · rename_i hc
      split
      · rename_i hb
        subst hb
        exact .drop hc (ih true)
      · exact .space hc (by decide) (ih true)
    · exact .keep (by simpa using ‹¬ isBlank c = true›) ((ih false).loosen _)

theorem thinned_of_dropWhile {s t : List Char} (h : ThinnedText true (s.dropWhile isBlank) t) :
    ThinnedText true s t := by
  induction s with
  | nil => exact h
  | cons c s ih =>
    by_cases hc : isBlank c = true
    · rw [List.dropWhile_cons_of_pos hc] at h
      exact .drop hc (ih h)
    · rwa [List.dropWhile_cons_of_neg hc] at h

theorem strip_suffix (s : List Char) : strip s <:+ s := by
  unfold strip
  split
  · exact List.dropWhile_suffix isBlank
  · exact List.suffix_rfl

theorem thinned_replaceAll_betweenTags? (b : Bool) (s : List Char) :
    ThinnedText b s (replaceAll betweenTags? s) := by
  induction hn : s.length using Nat.strongRecOn generalizing s b with
  | _ n ih =>
    cases s with
    | nil => simpa using Thinned.append_trail (by simp) [] b
    | cons c s =>
      have hlt : s.length < n := by simp [← hn]
      by_cases hc : c = '>'
      · subst hc
        rw [replaceAll_betweenTags?_mark]
        refine .keep (by decide) ?_
        have h := ih _ ((strip_suffix s).length_le.trans_lt hlt) true (strip s) rfl
        unfold strip at h ⊢
        split
        · rename_i hmark
          rw [if_pos hmark] at h
          exact thinned_of_dropWhile h
        · rename_i hmark
          rwa [if_neg hmark] at h
      · rw [replaceAll_of_none contextFree_betweenTags (atMark_betweenTags hc _)]
        by_cases hblank : isBlank c = true
        · exact .space hblank hblank (ih _ hlt true s rfl)
        · exact .keep (by simpa using hblank) (ih _ hlt _ s rfl)

theorem thinned_trim (s : List Char) : ThinnedText true s (trim s) := by
  have hend : ∀ s : List Char, ThinnedText true s (trimEnd s) := by
    intro s
    have h : ThinnedText true (trimEnd s ++ s.rtakeWhile isBlank) (trimEnd s) :=
      .append_trail (fun c hc => List.mem_rtakeWhile_imp hc) _ true
    rwa [trimEnd, ← List.rdropWhile, List.rdropWhile_append_rtakeWhile] at h
  exact thinned_of_dropWhile (hend _)

theorem thinned_squeeze (s : List Char) : ThinnedText true s (squeeze s) := by
  rw [squeeze, replaceAll_blanks?]
  exact ((thinned_collapseFrom false s).loosen true).trans
    ((thinned_replaceAll_betweenTags? true _).trans (thinned_trim _))

/-! ### Squeezing twice -/

theorem replaceAll_betweenTags?_cons (c : Char) (s : List Char) :
    replaceAll betweenTags? (c :: s) =
      c :: replaceAll betweenTags? (if c = '>' then strip s else s) := by
  split
  · rename_i hc
    rw [hc, replaceAll_betweenTags?_mark]
  · rename_i hc
    rw [replaceAll_of_none contextFree_betweenTags (atMark_betweenTags hc _)]

theorem head?_replaceAll_betweenTags? (s : List Char) :
    (replaceAll betweenTags? s).head? = s.head? := by
  cases s with
  | nil => simp
  | cons c s => rw [replaceAll_betweenTags?_cons, List.head?_cons, List.head?_cons]

theorem dropWhile_replaceAll_betweenTags? (s : List Char) :
    (replaceAll betweenTags? s).dropWhile isBlank = replaceAll betweenTags? (s.dropWhile isBlank) := by
  induction s with
  | nil => simp
  | cons c s ih =>
    rw [replaceAll_betweenTags?_cons]
    by_cases hc : isBlank c = true
    · have hne : c ≠ '>' := by
        rintro rfl
        exact absurd hc (by decide)
      rw [if_neg hne, List.dropWhile_cons_of_pos hc, List.dropWhile_cons_of_pos hc, ih]
    · rw [List.dropWhile_cons_of_neg hc, List.dropWhile_cons_of_neg hc, replaceAll_betweenTags?_cons]

theorem strip_replaceAll_betweenTags? (s : List Char) :
    strip (replaceAll betweenTags? s) = replaceAll betweenTags? (strip s) := by
  unfold strip
  rw [dropWhile_replaceAll_betweenTags?, head?_replaceAll_betweenTags?]
  split <;> rfl

theorem strip_strip (s : List Char) : strip (strip s) = strip s := by
  unfold strip
  split
  · rw [List.dropWhile_idempotent]
    exact ite_self _
  · rfl

/-- No white space stands between two tags. -/
def Tight (s : List Char) : Prop := ∀ u, '>' :: u <:+ s → strip u = u

theorem tight_replaceAll_betweenTags? (s : List Char) : Tight (replaceAll betweenTags? s) := by
  induction hn : s.length using Nat.strongRecOn generalizing s with
  | _ n ih =>
    intro u hu
    cases s with
    | nil => simp at hu
    | cons c s =>
      have hlt : s.length < n := by simp [← hn]
      rw [replaceAll_betweenTags?_cons, List.suffix_cons_iff] at hu
      rcases hu with hu | hu
      · obtain ⟨rfl, rfl⟩ := List.cons.inj hu
        rw [if_pos rfl, strip_replaceAll_betweenTags?, strip_strip]
      · split at hu
        · exact ih _ ((strip_suffix s).length_le.trans_lt hlt) _ rfl u hu
        · exact ih _ hlt _ rfl u hu

theorem Tight.of_part {s t : List Char} (h : Tight t) (hs : s <:+: t) : Tight s := by
  obtain ⟨x, y, rfl⟩ := hs
  rintro u ⟨w, rfl⟩
  have hlong : strip (u ++ y) = u ++ y := h (u ++ y) ⟨x ++ w, by simp⟩
  unfold strip at hlong ⊢
  split
  · rename_i hmark
    obtain ⟨v, hv⟩ := List.head?_eq_some_iff.1 hmark
    have hdrop : (u ++ y).dropWhile isBlank = u.dropWhile isBlank ++ y := by
      rw [List.dropWhile_append, hv]
      rfl
    rw [hdrop, hv, List.cons_append, List.head?_cons, if_pos rfl, ← List.cons_append, ← hv] at hlong
    exact List.append_cancel_right hlong
  · rfl

theorem Tight.replaceAll_eq {s : List Char} (h : Tight s) : replaceAll betweenTags? s = s := by
  induction s with
  | nil => simp
  | cons c s ih =>
    have hs : Tight s := h.of_part (List.suffix_cons c s).isInfix
    rw [replaceAll_betweenTags?_cons]
    split
    · rename_i hc
      rw [h s (hc ▸ List.suffix_rfl), ih hs]
    · rw [ih hs]

theorem squeezed_replaceAll_betweenTags? {s : List Char} (h : s.IsChain Squeezed) :
    (replaceAll betweenTags? s).IsChain Squeezed := by
  induction hn : s.length using Nat.strongRecOn generalizing s with
  | _ n ih =>
    cases s with
    | nil => simp
    | cons c s =>
      have hlt : s.length < n := by simp [← hn]
      have hs := List.isChain_cons.1 h
      rw [replaceAll_betweenTags?_cons]
      split
      · rename_i hc
        have hsolid : isBlank c = false := by rw [hc]; decide
        refine (ih _ ((strip_suffix s).length_le.trans_lt hlt) (hs.2.suffix (strip_suffix s)) rfl).cons ?_
        intro d _ hblank
        rw [hsolid] at hblank
        cases hblank
      · refine (ih _ hlt hs.2 rfl).cons ?_
        rw [head?_replaceAll_betweenTags?]
        exact hs.1

/-- Squeezed white space is not squeezed any further. -/
theorem squeeze_squeeze (s : List Char) : squeeze (squeeze s) = squeeze s := by
  have hpart := isInfix_trim (replaceAll betweenTags? (collapse s))
  have hchain : (squeeze s).IsChain Squeezed := by
    rw [squeeze, replaceAll_blanks?]
    exact List.IsChain.infix (squeezed_replaceAll_betweenTags? (squeezed_collapseFrom false s).1) hpart
  have hspaced : Spaced (squeeze s) := by
    intro c hc hblank
    rw [squeeze, replaceAll_blanks?] at hc
    have hmarks : ∀ b t a (k : Cut t), betweenTags? b t = some (a, k) → ∀ c ∈ a, c ∈ t ∨ c ∈ ['>', '<'] := by
      intro b t a k h d hd
      simp only [betweenTags?, Option.bind_eq_bind, Option.bind_eq_some_iff, Option.pure_def,
        Option.some.injEq, Prod.mk.injEq] at h
      obtain ⟨_, -, _, -, _, -, rfl, -⟩ := h
      exact .inr hd
    rcases mem_replaceAll hmarks (hpart.mem hc) with hc | hc
    · exact spaced_collapseFrom false s c hc hblank
    · simp only [List.mem_cons, List.not_mem_nil, or_false] at hc
      rcases hc with rfl | rfl <;> exact absurd hblank (by decide)
  have htight : Tight (squeeze s) := by
    rw [squeeze, replaceAll_blanks?]
    exact (tight_replaceAll_betweenTags? _).of_part hpart
  rw [squeeze, replaceAll_blanks?, collapse_eq_self hchain hspaced, htight.replaceAll_eq, squeeze, trim_trim]

end PagePress.Text
