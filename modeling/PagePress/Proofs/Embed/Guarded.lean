import PagePress.Proofs.Scan

/-!
Texts with backslashes put into them. A backslash goes between a character that opens a mark and the
one that goes on with it (`Guarded`), so that a word without backslashes stands in the new text only
where it stood before (`Guarded.infix_of_infix`). A scan that breaks each of its pieces in this way
leaves none of them (`Guards.eq_none`).
-/

namespace PagePress.Embed

open Text

/-- A character behind which a backslash may be put. -/
def opens (c : Char) : Bool := c == '<' || c == '-'

/-- A character before which a backslash may be put. -/
def isGuarded (c : Char) : Bool := c == '/' || c == '!' || c == '>'

theorem opens_of_isGuarded {c : Char} (h : isGuarded c = true) : opens c = false := by
  simp only [isGuarded, Bool.or_eq_true, beq_iff_eq] at h
  rcases h with (rfl | rfl) | rfl <;> decide

/-- The second text is the first one with backslashes put into it. The flag tells whether a character
that opens a mark stands before. -/
inductive Guarded : Bool → List Char → List Char → Prop where
  | nil {b : Bool} : Guarded b [] []
  | keep {b : Bool} {c : Char} {s t : List Char} (h : Guarded (opens c) s t) : Guarded b (c :: s) (c :: t)
  | guard {c : Char} {s t : List Char} (hc : isGuarded c = true) (h : Guarded false s t) :
      Guarded true (c :: s) ('\\' :: c :: t)

namespace Guarded

variable {b : Bool} {s t w : List Char}

theorem append_left (h : ∀ b, Guarded b s t) (u : List Char) (b : Bool) : Guarded b (u ++ s) (u ++ t) := by
  induction u generalizing b with
  | nil => exact h b
  | cons c u ih => exact .keep (ih _)

theorem prefix_before (h : Guarded b s t) (hw : '\\' ∉ w) (hp : w <+: t) : w <+: s := by
  induction h generalizing w with
  | nil => exact hp
  | keep _ ih =>
    cases w with
    | nil => exact List.nil_prefix
    | cons d w =>
      obtain ⟨rfl, hrest⟩ := List.cons_prefix_cons.1 hp
      exact List.cons_prefix_cons.2 ⟨rfl, ih (fun hm => hw (List.mem_cons_of_mem _ hm)) hrest⟩
  | guard _ _ _ =>
    cases w with
    | nil => exact List.nil_prefix
    | cons d w =>
      obtain ⟨rfl, -⟩ := List.cons_prefix_cons.1 hp
      simp at hw

/-- A word without backslashes stood there before. -/
theorem infix_of_infix (h : Guarded b s t) (hw : '\\' ∉ w) (hi : w <:+: t) : w <:+: s := by
  induction h with
  | nil => exact hi
  | @keep b c s t h ih =>
    rcases List.infix_cons_iff.1 hi with hp | hi
    · exact ((keep (b := b) h).prefix_before hw hp).isInfix
    · exact List.infix_cons_iff.2 (.inr (ih hi))
  | @guard c s t hc h ih =>
    rcases List.infix_cons_iff.1 hi with hp | hi
    · exact ((guard hc h).prefix_before hw hp).isInfix
    · have hkeep : Guarded true (c :: s) (c :: t) := .keep (by rwa [opens_of_isGuarded hc])
      rcases List.infix_cons_iff.1 hi with hp | hi
      · exact (hkeep.prefix_before hw hp).isInfix
      · exact List.infix_cons_iff.2 (.inr (ih hi))

end Guarded

/-! ### Scans -/

/-- A scan puts a backslash into each of its pieces. All pieces begin with `m`, which does not occur
behind the backslash, and a piece is recognised whatever follows it. -/
structure Guards (m : Char) (r : Recognizer (List Char)) : Prop where
  contextFree : ContextFree r
  parts : ∀ {s v : List Char} {k : Cut s}, r none s = some (v, k) → ∃ u d c w,
    k.text = u ++ d :: c :: w ∧ v = u ++ d :: '\\' :: c :: w ∧ opens d = true ∧ isGuarded c = true ∧
      (∀ e ∈ u, isGuarded e = false) ∧ m ∉ c :: w
  text : ∀ {s v : List Char} {k : Cut s}, r none s = some (v, k) → k.text.head? = some m ∧ '\\' ∉ k.text
  again : ∀ {s v : List Char} {k : Cut s}, r none s = some (v, k) → ∀ {t : List Char}, k.text <+: t →
    r none t ≠ none

namespace Guards

variable {m : Char} {r : Recognizer (List Char)}

/-- A character is kept, or a piece begins there and is broken. -/
theorem replaceAll_cons (hr : Guards m r) (c : Char) (s : List Char) :
    r none (c :: s) = none ∧ replaceAll r (c :: s) = c :: replaceAll r s ∨
      ∃ u d e w t, c :: s = u ++ d :: e :: (w ++ t) ∧
        replaceAll r (c :: s) = u ++ d :: '\\' :: e :: (w ++ replaceAll r t) ∧
        opens d = true ∧ isGuarded e = true ∧ (∀ f ∈ u, isGuarded f = false) ∧ m ∉ e :: w := by
  cases hk : r none (c :: s) with
  | none => exact .inl ⟨rfl, replaceAll_of_none hr.contextFree hk⟩
  | some x =>
    obtain ⟨v, k⟩ := x
    obtain ⟨u, d, e, w, hparts, rfl, hrest⟩ := hr.parts hk
    have hs : c :: s = u ++ d :: e :: w ++ k.rest := by rw [← hparts, k.append_eq]
    refine .inr ⟨u, d, e, w, k.rest, by simpa using hs, ?_, hrest⟩
    rw [replaceAll_of_gives hr.contextFree hs (by simp) hk hparts]
    simp

/-- A scan puts backslashes into a text. -/
theorem guarded (hr : Guards m r) (s : List Char) (b : Bool) : Guarded b s (replaceAll r s) := by
  induction hn : s.length using Nat.strongRecOn generalizing s b with
  | ind n ih =>
    cases s with
    | nil => simpa using Guarded.nil
    | cons c s =>
      rcases hr.replaceAll_cons c s with ⟨-, hkeep⟩ | ⟨u, d, e, w, t, hs, hbreak, hd, he, -⟩
      · rw [hkeep]
        exact .keep (ih s.length (by simp [← hn]) s _ rfl)
      · have ht : ∀ b, Guarded b t (replaceAll r t) := fun b =>
          ih t.length (by rw [← hn, hs]; simp; omega) t b rfl
        rw [hbreak, hs]
        refine .append_left (fun b => .keep ?_) u b
        rw [hd]
        exact .guard he (.append_left ht w false)

/-- Where a piece is recognised when backslashes have been put in, it was recognised before. -/
theorem eq_none_of_guarded (hr : Guards m r) {b : Bool} {s t : List Char} (h : Guarded b s t)
    (hs : r none s = none) : r none t = none := by
  by_contra ht
  obtain ⟨⟨v, k⟩, hk⟩ := Option.ne_none_iff_exists'.1 ht
  exact hr.again hk (h.prefix_before (hr.text hk).2 ⟨k.rest, k.append_eq⟩) hs

/-- Where no piece is left, none comes up when backslashes are put in. -/
theorem eq_none_of_suffix (hr : Guards m r) {b : Bool} {s t : List Char} (h : Guarded b s t)
    (hs : ∀ x, x <:+ s → r none x = none) {x : List Char} (hx : x <:+ t) : r none x = none := by
  by_contra hne
  obtain ⟨⟨v, k⟩, hk⟩ := Option.ne_none_iff_exists'.1 hne
  have hinfix : k.text <:+: t := (List.IsPrefix.isInfix ⟨k.rest, k.append_eq⟩).trans hx.isInfix
  obtain ⟨y, z, hyz⟩ := h.infix_of_infix (hr.text hk).2 hinfix
  exact hr.again hk (List.prefix_append _ z) (hs _ ⟨y, by rw [← hyz, List.append_assoc]⟩)

/-- No piece begins in the front part of a broken one. -/
theorem eq_none_of_front (hr : Guards m r) {u x : List Char} (hu : ∀ e ∈ u, isGuarded e = false) :
    r none (u ++ '\\' :: x) = none := by
  by_contra hne
  obtain ⟨⟨v, k⟩, hk⟩ := Option.ne_none_iff_exists'.1 hne
  obtain ⟨z, hz, -⟩ := exists_of_append_eq (hr.text hk).2 k.append_eq
  obtain ⟨u', d, c, w, hparts, -, -, hc, -⟩ := hr.parts hk
  have := hu c (by simp [hz, hparts])
  rw [hc] at this
  cases this

theorem eq_none_of_head (hr : Guards m r) {c : Char} (hc : c ≠ m) (s : List Char) :
    r none (c :: s) = none := by
  by_contra hne
  obtain ⟨⟨v, k⟩, hk⟩ := Option.ne_none_iff_exists'.1 hne
  obtain ⟨y, hy⟩ := List.head?_eq_some_iff.1 (hr.text hk).1
  have := k.append_eq
  rw [hy] at this
  exact hc (List.cons.inj this).1.symm

/-- No piece is left in the result of a scan. -/
theorem eq_none (hr : Guards m r) (s : List Char) {x : List Char} (hx : x <:+ replaceAll r s) :
    r none x = none := by
  cases x with
  | nil =>
    by_contra hne
    obtain ⟨⟨v, k⟩, hk⟩ := Option.ne_none_iff_exists'.1 hne
    have hnil : k.text = [] := (List.append_eq_nil_iff.1 k.append_eq).1
    simpa [hnil] using (hr.text hk).1
  | cons c' x =>
    by_cases hc' : c' = m
    swap
    · exact hr.eq_none_of_head hc' x
    subst hc'
    by_cases hslash : c' = '\\'
    · rw [hslash]
      exact hr.eq_none_of_front (u := []) (by simp)
    induction hn : s.length using Nat.strongRecOn generalizing s with
    | ind n ih =>
      cases s with
      | nil => simp at hx
      | cons c s =>
        rcases hr.replaceAll_cons c s with ⟨hnone, hkeep⟩ | ⟨u, d, e, w, t, hs, hbreak, hd, -, hu, hm⟩
        · have hguarded := hr.guarded (c :: s) true
          rw [hkeep] at hx hguarded
          rcases List.suffix_cons_iff.1 hx with hx | hx
          · rw [hx]
            exact hr.eq_none_of_guarded hguarded hnone
          · exact ih s.length (by simp [← hn]) s hx rfl
        · have hfront : ∀ f ∈ u ++ [d], isGuarded f = false := by
            simp only [List.mem_append, List.mem_singleton]
            rintro f (hf | rfl)
            · exact hu f hf
            · by_contra hf
              rw [opens_of_isGuarded (by simpa using hf)] at hd
              cases hd
          obtain ⟨y, hy⟩ := hx
          have hcut : y ++ c' :: x = (u ++ [d]) ++ '\\' :: (e :: w ++ replaceAll r t) := by
            rw [hy, hbreak]
            simp
          rcases List.append_eq_append_iff.1 hcut with ⟨z, hz, hx⟩ | ⟨z, -, hx⟩
          · rw [hx]
            exact hr.eq_none_of_front fun f hf => hfront f (by rw [hz]; exact List.mem_append_right _ hf)
          · have hsuffix : c' :: x <:+ ('\\' :: (e :: w)) ++ replaceAll r t := ⟨z, hx.symm⟩
            refine ih t.length (by rw [← hn, hs]; simp; omega) t (suffix_of_suffix_append ?_ hsuffix) rfl
            exact fun hmem => (List.mem_cons.1 hmem).elim hslash hm

end Guards

end PagePress.Embed
