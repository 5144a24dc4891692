import PagePress.Proofs.Scan
import PagePress.Text.Case

/-!
Lower-casing part by part. What becomes of a character may depend on the text around it, but the
lower-cased text is still made up of what its parts become, and ASCII letters do not depend on
anything. Only the two forms of the small sigma are told apart by their surroundings, so whether an
ASCII word occurs in lower case is known character by character (`containsText_lower_iff`).
-/

namespace PagePress.Text

/-- The text behind some place is lower-cased by itself, once it is known what was before. -/
theorem exists_lowerFrom_append (b : Bool) (u v : List Char) :
    ∃ w b', lowerFrom b (u ++ v) = w ++ lowerFrom b' v := by
  induction u generalizing b with
  | nil => exact ⟨[], b, rfl⟩
  | cons c u ih =>
    have step : ∀ (x : List Char) (b' : Bool),
        lowerFrom b (c :: (u ++ v)) = x ++ lowerFrom b' (u ++ v) →
          ∃ w b'', lowerFrom b (c :: (u ++ v)) = w ++ lowerFrom b'' v := by
      intro x b' hx
      obtain ⟨w, b'', hw⟩ := ih b'
      exact ⟨x ++ w, b'', by rw [hx, hw, List.append_assoc]⟩
    by_cases hc : c.toNat < 0x80
    · exact step [c.toLower] _ (by simp only [lowerFrom, if_pos hc]; rfl)
    · by_cases hs : c = 'Σ'
      · exact step [_] _ (by simp only [lowerFrom, if_neg hc, if_pos hs]; rfl)
      · by_cases hi : c = 'İ'
        · exact step ['i', '\u0307'] _ (by simp only [lowerFrom, if_neg hc, if_neg hs, if_pos hi]; rfl)
        · exact step [lowerChar c] _ (by simp only [lowerFrom, if_neg hc, if_neg hs, if_neg hi]; rfl)

/-- ASCII text is lower-cased character by character. -/
theorem exists_lowerFrom_ascii {u : List Char} (hu : ∀ c ∈ u, c.toNat < 0x80) (b : Bool)
    (v : List Char) : ∃ b', lowerFrom b (u ++ v) = u.map Char.toLower ++ lowerFrom b' v := by
  induction u generalizing b with
  | nil => exact ⟨b, rfl⟩
  | cons c u ih =>
    have hc : c.toNat < 0x80 := hu c (by simp)
    obtain ⟨b', hb⟩ := ih (fun d hd => hu d (by simp [hd]))
      (if isCaseIgnorable c then b else c.isAlpha)
    exact ⟨b', by simp only [List.cons_append, lowerFrom, if_pos hc, hb, List.map_cons]⟩

theorem lower_of_ascii {u : List Char} (hu : ∀ c ∈ u, c.toNat < 0x80) :
    lower u = u.map Char.toLower := by
  obtain ⟨b', hb⟩ := exists_lowerFrom_ascii hu false []
  simpa [lower, lowerFrom] using hb

/-! ### Words in lower case -/

/-- The small sigma in its common form. -/
def foldSigma (c : Char) : Char := if c = 'ς' then 'σ' else c

/-- What becomes of a character in lower case, with one form of the small sigma. -/
def folded (c : Char) : List Char :=
  if c.toNat < 0x80 then [c.toLower]
  else if c = 'Σ' then ['σ'] else if c = 'İ' then ['i', '\u0307'] else [foldSigma (lowerChar c)]

theorem foldSigma_of_ascii {c : Char} (h : c.toNat < 0x80) : foldSigma c = c := by
  refine if_neg ?_
  rintro rfl
  exact absurd h (by decide)

theorem toNat_toLower {c : Char} (h : c.toNat < 0x80) : c.toLower.toNat < 0x80 := by
  have hall : ∀ n < 0x80, (Char.ofNat n).toLower.toNat < 0x80 := by decide
  simpa using hall c.toNat h

/-- But for the form of the small sigma, lower-casing does not look around. -/
theorem map_foldSigma_lowerFrom (b : Bool) (s : List Char) :
    (lowerFrom b s).map foldSigma = s.flatMap folded := by
  induction s generalizing b with
  | nil => rfl
  | cons c s ih =>
    by_cases hc : c.toNat < 0x80
    · simp only [lowerFrom, folded, if_pos hc, List.map_cons, List.flatMap_cons, ih,
        foldSigma_of_ascii (toNat_toLower hc), List.singleton_append]
    · by_cases hs : c = 'Σ'
      · have hsigma : ∀ b : Bool, foldSigma (if b then 'ς' else 'σ') = 'σ' := by decide
        simp only [lowerFrom, folded, if_neg hc, if_pos hs, List.map_cons, List.flatMap_cons, ih, hsigma,
          List.singleton_append]
      · by_cases hi : c = 'İ'
        · have h1 : foldSigma 'i' = 'i' := by decide
          have h2 : foldSigma '\u0307' = '\u0307' := by decide
          simp only [lowerFrom, folded, if_neg hc, if_neg hs, if_pos hi, List.map_cons, List.flatMap_cons,
            ih, h1, h2]
          rfl
        · simp only [lowerFrom, folded, if_neg hc, if_neg hs, if_neg hi, List.map_cons, List.flatMap_cons,
            ih, List.singleton_append]

theorem prefix_map_foldSigma {w : List Char} (hw : ∀ c ∈ w, c.toNat < 0x80) {s : List Char} :
    w <+: s.map foldSigma ↔ w <+: s := by
  induction w generalizing s with
  | nil => simp
  | cons a w ih =>
    cases s with
    | nil => simp
    | cons c s =>
      have hac : a = foldSigma c ↔ a = c := by
        have ha := hw a (by simp)
        unfold foldSigma
        split
        · rename_i h
          subst h
          refine ⟨?_, ?_⟩ <;>
          · rintro rfl
            exact absurd ha (by decide)
        · rfl
      rw [List.map_cons, List.cons_prefix_cons, List.cons_prefix_cons, hac,
        ih fun d hd => hw d (by simp [hd])]

theorem infix_map_foldSigma {w : List Char} (hw : ∀ c ∈ w, c.toNat < 0x80) {s : List Char} :
    w <:+: s.map foldSigma ↔ w <:+: s := by
  induction s with
  | nil => simp
  | cons c s ih =>
    rw [List.map_cons, List.infix_cons_iff, List.infix_cons_iff, ih, ← List.map_cons,
      prefix_map_foldSigma hw]

theorem containsText_iff {w : String} {s : List Char} :
    containsText w s = true ↔ w.toList <:+: s := by
  unfold containsText
  generalize none = b
  induction s generalizing b with
  | nil => simp [occurs]
  | cons c s ih =>
    rw [occurs, Bool.or_eq_true, ih, List.infix_cons_iff, List.isPrefixOf_iff_prefix]

/-- An ASCII word occurs in lower case where the characters, each in lower case by itself, make it
up. -/
theorem containsText_lower_iff {w : String} (hw : ∀ c ∈ w.toList, c.toNat < 0x80) {s : List Char} :
    containsText w (lower s) = true ↔ w.toList <:+: s.flatMap folded := by
  rw [containsText_iff, ← infix_map_foldSigma hw, lower, map_foldSigma_lowerFrom]

end PagePress.Text
