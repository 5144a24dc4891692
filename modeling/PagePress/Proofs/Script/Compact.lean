import PagePress.Proofs.Script.Complete
import PagePress.Script.Compact

/-!
Compact scripts part by part. A complete part of a script is compacted by itself
(`compact_infix`), and a call with a string literal stays as it is written (`compact_call`).
-/

namespace PagePress.Script

open Text

/-! ### Joining -/

/-- The gap before the first token and the character before it are all that the joined tokens
depend on. -/
theorem exists_joinFrom_append (b : Option Char) (gap : Gap) (ts : List Token) : ∃ b' gap', ∀ us,
    joinFrom b gap (ts ++ us) = joinFrom b gap ts ++ joinFrom b' gap' us := by
  fun_induction joinFrom b gap ts with
  | case1 b gap => exact ⟨b, gap, fun us => rfl⟩
  | case2 b gap text rest ih => exact ih
  | case3 b gap text rest ih => exact ih
  | case4 b gap text rest ih => exact ih
  | case5 b gap rest ih => exact ih
  | case6 b gap rest d u ih =>
    obtain ⟨b', gap', h⟩ := ih
    refine ⟨b', gap', fun us => ?_⟩
    rw [List.cons_append, joinFrom, h]
    simp only [List.append_assoc]
  | case7 b gap d rest ih =>
    obtain ⟨b', gap', h⟩ := ih
    refine ⟨b', gap', fun us => ?_⟩
    rw [List.cons_append, joinFrom, h, List.append_assoc, List.cons_append]

@[simp] theorem separator_none (b : Option Char) (c : Char) : separator b c .none = [] := by
  unfold separator
  split
  · rfl
  · split
    · rfl
    · rfl

@[simp] theorem separator_start (c : Char) (gap : Gap) : separator none c gap = [] := rfl

/-- Characters in a row stay in a row. -/
theorem joinFrom_chars (b : Option Char) (u : List Char) (ts : List Token) : ∃ b',
    joinFrom b .none (u.map .char ++ ts) = u ++ joinFrom b' .none ts := by
  induction u generalizing b with
  | nil => exact ⟨b, rfl⟩
  | cons c u ih =>
    obtain ⟨b', h⟩ := ih (some c)
    refine ⟨b', ?_⟩
    rw [List.map_cons, List.cons_append, joinFrom, separator_none, h]
    rfl

theorem joinFrom_char (b : Option Char) (gap : Gap) (c : Char) (ts : List Token) :
    joinFrom b gap (.char c :: ts) = separator b c gap ++ joinFrom none .none (.char c :: ts) := by
  rw [joinFrom, joinFrom, separator_start, List.nil_append]

/-! ### Parts -/

/-- A text of characters that are tokens by themselves. -/
def isSolid (c : Char) : Bool := isScriptChar c && !isQuote c && c != '/' && !isBlank c

theorem tokens_solid {u : List Char} (h : ∀ c ∈ u, isSolid c = true) (v : List Char) :
    tokens (u ++ v) = u.map .char ++ tokens v := by
  induction u with
  | nil => rfl
  | cons c u ih =>
    have hc := h c (by simp)
    simp only [isSolid, Bool.and_eq_true, Bool.not_eq_true', bne_iff_ne] at hc
    rw [List.cons_append, tokens_of_solid hc.1.2 hc.1.1.2 hc.2, ih fun d hd => h d (by simp [hd])]
    rfl

/-- A complete part between solid ends is compacted by itself. -/
theorem compact_infix {a s v : List Char} {c : Char} {w : List Char} (ha : Complete a) (hs : Complete s)
    (hc : isSolid c = true) (hstart : s = c :: w) (hend : Apart s v) :
    compact s <:+: compact (a ++ (s ++ v)) := by
  have hapart : Apart a (s ++ v) := by
    right
    intro d hd
    obtain rfl : c = d := by simpa [hstart] using hd
    simp only [isSolid, Bool.and_eq_true, Bool.not_eq_true'] at hc
    exact hc.2
  have htokens : tokens s = .char c :: tokens w := by
    rw [hstart]
    exact tokens_solid (u := [c]) (by simpa using hc) w
  obtain ⟨b, gap, h⟩ := exists_joinFrom_append none .none (tokens a)
  obtain ⟨b', gap', h'⟩ := exists_joinFrom_append b gap (tokens s)
  have hjoin : joinFrom b gap (tokens s) = separator b c gap ++ compact s := by
    rw [compact, htokens, joinFrom_char]
  refine ⟨joinFrom none .none (tokens a) ++ separator b c gap, joinFrom b' gap' (tokens v), ?_⟩
  rw [compact, compact, ha.tokens_append hapart, hs.tokens_append hend, h, h', hjoin, compact]
  simp only [List.append_assoc]

/-- A call with a string literal, up to the literal. -/
def call (name : String) (arg : List Char) : List Char := name.toList ++ Json.literal arg

/-- A call with a string literal is joined as it is written. -/
theorem joinFrom_call {name : String} (hname : ∀ c ∈ name.toList, isSolid c = true)
    (hne : name.toList ≠ []) {a : List Char} (ha : Complete a) (arg : List Char) (b : Option Char)
    (gap : Gap) (v : List Char) : ∃ x b', (∀ c ∈ x, c ∈ a ∨ c = ' ' ∨ c = '\n') ∧
      joinFrom b gap (tokens (a ++ (call name arg ++ v))) =
        x ++ (call name arg ++ joinFrom b' .none (tokens v)) := by
  obtain ⟨c, w, hw⟩ := List.exists_cons_of_ne_nil hne
  have hc : isSolid c = true := hname c (by simp [hw])
  have hapart : Apart a (call name arg ++ v) := by
    right
    intro d hd
    obtain rfl : c = d := by simpa [call, hw] using hd
    simp only [isSolid, Bool.and_eq_true, Bool.not_eq_true'] at hc
    exact hc.2
  have htokens : tokens (call name arg ++ v) =
      .char c :: (w.map .char ++ .literal (Json.literal arg) :: tokens v) := by
    rw [call, List.append_assoc, tokens_solid hname, (complete_literal arg).tokens_append
      (apart_literal arg v), tokens_literal, hw]
    rfl
  obtain ⟨b1, gap1, h1⟩ := exists_joinFrom_append b gap (tokens a)
  obtain ⟨b2, h2⟩ := joinFrom_chars (some c) w (.literal (Json.literal arg) :: tokens v)
  refine ⟨joinFrom b gap (tokens a) ++ separator b1 c gap1, (Json.literal arg).getLast?.or b2, ?_, ?_⟩
  · intro d hd
    rcases List.mem_append.1 hd with hd | hd
    · have := mem_joinFrom hd
      rwa [text_tokens] at this
    · exact .inr (mem_separator hd)
  · have hliteral : joinFrom b2 .none (.literal (Json.literal arg) :: tokens v) =
        Json.literal arg ++ joinFrom ((Json.literal arg).getLast?.or b2) .none (tokens v) := by
      rw [literal_eq, joinFrom, separator_none]
      rfl
    rw [ha.tokens_append hapart, h1, htokens, joinFrom, h2, hliteral, call, hw]
    simp

end PagePress.Script
