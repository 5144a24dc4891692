import PagePress.Proofs.Scan
import PagePress.Script.Compact

/-!
Tokens of a script make up the script, and a compact script holds no characters of its own but
spaces and newlines.
-/

namespace PagePress.Script

/-- The tokens of a script make up its text. -/
theorem text_tokens (s : List Char) : (tokens s).flatMap Token.text = s := by
  fun_induction tokens s with
  | case1 => rfl
  | case2 rest _ ih => simp [Token.text, ih, List.takeWhile_append_dropWhile]
  | case3 rest _ ih => simp [Token.text, ih, commentRest_append]
  | case4 c rest _ _ _ _ ih => simp [Token.text, ih, literalRest_append]
  | case5 c rest _ _ _ _ _ ih => simp [Token.text, ih, List.takeWhile_append_dropWhile]
  | case6 c rest _ _ _ _ ih => simp [Token.text, ih]

theorem mem_separator {b : Option Char} {a c : Char} {gap : Gap} (h : c ∈ separator b a gap) :
    c = ' ' ∨ c = '\n' := by
  have hgap : ∀ g : Gap, c ∈ g.text → c = ' ' ∨ c = '\n' := by
    intro g hg
    cases g <;> simp [Gap.text] at hg <;> simp [hg]
  unfold separator at h
  split at h
  · cases h
  · split at h
    · cases h
    · split at h
      · cases h
      · exact hgap gap h

theorem mem_joinFrom {b : Option Char} {gap : Gap} {ts : List Token} {c : Char}
    (h : c ∈ joinFrom b gap ts) : c ∈ ts.flatMap Token.text ∨ c = ' ' ∨ c = '\n' := by
  fun_induction joinFrom b gap ts with
  | case1 => cases h
  | case2 b gap text rest ih => exact (ih h).imp_left fun h => by simp [h]
  | case3 b gap text rest ih => exact (ih h).imp_left fun h => by simp [h]
  | case4 b gap text rest ih => exact (ih h).imp_left fun h => by simp [h]
  | case5 b gap rest ih => exact (ih h).imp_left fun h => by simp [h]
  | case6 b gap rest d u ih =>
    rcases List.mem_append.1 h with h | h
    · rcases List.mem_append.1 h with h | h
      · exact .inr (mem_separator h)
      · exact .inl (List.mem_append_left _ h)
    · exact (ih h).imp_left fun h => by simp [h]
  | case7 b gap d rest ih =>
    rcases List.mem_append.1 h with h | h
    · exact .inr (mem_separator h)
    · rcases List.mem_cons.1 h with rfl | h
      · exact .inl (by simp [Token.text])
      · exact (ih h).imp_left fun h => by simp [h]

/-- What compacting writes stood in the script before or is white space. -/
theorem mem_compact {s : List Char} {c : Char} (h : c ∈ compact s) : c ∈ s ∨ c = ' ' ∨ c = '\n' := by
  have := mem_joinFrom h
  rwa [text_tokens] at this

end PagePress.Script
