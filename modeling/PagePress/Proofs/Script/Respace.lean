import PagePress.Proofs.Script.Words
import PagePress.Proofs.Text.Blank

/-!
Compact scripts as lists of tokens. Compacting drops comments and chooses anew what stands between
two tokens (`respaced`), and a scan of the compact script finds just these tokens again
(`tokens_compact`), provided that no newline cuts a literal short. So a compact script has the
literals of the script (`literals_compact`), and compacting it once more changes nothing
(`compact_compact`).
-/

namespace PagePress.Script

open Text

/-! ### Scans of tokens -/

/-- The first character of some tokens. -/
def first? (ts : List Token) : Option Char := (ts.flatMap Token.text).head?

/-- The text after the opening mark of a literal ends with the literal, whatever follows. -/
def ClosedBy (mark : Char) (u : List Char) : Prop := ∀ v, literalRest mark (u ++ v) = (u, v)

/-- No two of these tokens run together when they are written one after the other. A literal that
is not closed takes all that follows it, so it can only be the last one. -/
inductive Separate : List Token → Prop where
  | nil : Separate []
  | char {c : Char} {ts : List Token} (hquote : isQuote c = false) (hblank : isBlank c = false)
      (hslash : c = '/' → ∀ d, first? ts = some d → d ≠ '/' ∧ d ≠ '*') (h : Separate ts) :
      Separate (.char c :: ts)
  | literal {q : Char} {u : List Char} {ts : List Token} (hq : isQuote q = true) (hu : ClosedBy q u)
      (h : Separate ts) : Separate (.literal (q :: u) :: ts)
  | unclosed {q : Char} {u : List Char} (hq : isQuote q = true) (hu : literalRest q u = (u, [])) :
      Separate [.literal (q :: u)]
  | blank {c : Char} {w : List Char} {ts : List Token} (hc : isBlank c = true)
      (hw : ∀ d ∈ w, isBlank d = true) (hnext : ∀ d, first? ts = some d → isBlank d = false)
      (h : Separate ts) : Separate (.blank (c :: w) :: ts)

/-- Tokens that do not run together are found again in their text. -/
theorem Separate.tokens_text {ts : List Token} (h : Separate ts) :
    tokens (ts.flatMap Token.text) = ts := by
  induction h with
  | nil => exact tokens_nil
  | @char c ts hquote hblank hslash _ ih =>
    rw [List.flatMap_cons, Token.text, List.singleton_append, tokens_of_char hquote hblank hslash, ih]
  | @literal q u ts hq hu _ ih =>
    rw [List.flatMap_cons, Token.text, List.cons_append, tokens_of_isQuote hq, hu, ih]
  | @unclosed q u hq hu =>
    rw [List.flatMap_cons, List.flatMap_nil, List.append_nil, Token.text, tokens_of_isQuote hq, hu,
      tokens_nil]
  | @blank c w ts hc hw hnext _ ih =>
    have hrest : (ts.flatMap Token.text).dropWhile isBlank = ts.flatMap Token.text :=
      dropWhile_isBlank_eq_self hnext
    have htake : (ts.flatMap Token.text).takeWhile isBlank = [] := by
      cases hts : ts.flatMap Token.text with
      | nil => rfl
      | cons d s => exact List.takeWhile_cons_of_neg (by simp [hnext d (by rw [first?, hts]; rfl)])
    rw [List.flatMap_cons, Token.text, List.cons_append, tokens_of_blank hc,
      List.takeWhile_append_of_pos hw, List.dropWhile_append_of_pos hw, hrest, htake, ih,
      List.append_nil]

/-! ### What a scan finds -/

/-- No newline cuts a literal short: each is closed, or the script ends with it. -/
def Uncut (ts : List Token) : Prop :=
  ∀ us q u vs, ts = us ++ .literal (q :: u) :: vs → ClosedBy q u ∨ vs = []

theorem Uncut.of_cons {t : Token} {ts : List Token} (h : Uncut (t :: ts)) : Uncut ts :=
  fun us q u vs hts => h (t :: us) q u vs (by rw [hts, List.cons_append])

/-- The tokens of a script that has no literal cut short, as a scan finds them: comments and white
space stand anywhere, and the others are those of separate tokens. -/
inductive Scanned : List Token → Prop where
  | nil : Scanned []
  | lineComment (w : List Char) {ts : List Token} (h : Scanned ts) :
      Scanned (.lineComment ('/' :: w) :: ts)
  | blockComment (w : List Char) {ts : List Token} (h : Scanned ts) : Scanned (.blockComment w :: ts)
  | blank (w : List Char) {ts : List Token} (h : Scanned ts) : Scanned (.blank w :: ts)
  | char {c : Char} {ts : List Token} (hquote : isQuote c = false) (hblank : isBlank c = false)
      (hslash : c = '/' → ∀ d, first? ts = some d → d ≠ '/' ∧ d ≠ '*') (h : Scanned ts) :
      Scanned (.char c :: ts)
  | literal {q : Char} {u : List Char} {ts : List Token} (hq : isQuote q = true) (hu : ClosedBy q u)
      (h : Scanned ts) : Scanned (.literal (q :: u) :: ts)
  | unclosed {q : Char} {u : List Char} (hq : isQuote q = true) (hu : literalRest q u = (u, [])) :
      Scanned [.literal (q :: u)]

theorem first?_tokens (s : List Char) : first? (tokens s) = s.head? := by rw [first?, text_tokens]

theorem eq_nil_of_tokens {s : List Char} (h : tokens s = []) : s = [] := by
  rw [← text_tokens s, h]
  rfl

theorem scanned_tokens (s : List Char) (h : Uncut (tokens s)) : Scanned (tokens s) := by
  fun_induction tokens s with
  | case1 => exact .nil
  | case2 rest _ ih => exact .lineComment _ (ih h.of_cons)
  | case3 rest _ ih => exact .blockComment _ (ih h.of_cons)
  | case4 c rest hslash hstar hq _ ih =>
    rcases h [] c (literalRest c rest).1 _ rfl with hclosed | hlast
    · exact .literal hq hclosed (ih h.of_cons)
    · have hrest := eq_nil_of_tokens hlast
      have happend := literalRest_append c rest
      rw [hrest, List.append_nil] at happend
      rw [hlast, happend]
      exact .unclosed hq (Prod.ext happend hrest)
  | case5 c rest hslash hstar hq hb _ ih => exact .blank _ (ih h.of_cons)
  | case6 c rest hslash hstar hq hb ih =>
    refine .char (by simpa using hq) (by simpa using hb) (fun hc d hd => ?_) (ih h.of_cons)
    rw [first?_tokens] at hd
    obtain ⟨w, rfl⟩ : ∃ w, rest = d :: w := by
      cases rest with
      | nil => cases hd
      | cons e w => exact ⟨w, by rw [Option.some.inj hd]⟩
    refine ⟨?_, ?_⟩
    · rintro rfl
      exact hslash w hc rfl
    · rintro rfl
      exact hstar w hc rfl

/-! ### Gaps chosen anew -/

/-- White space as a token, if there is any. -/
def gapTokens (s : List Char) : List Token := if s = [] then [] else [.blank s]

/-- The tokens that compacting leaves after the character `before`, with `gap` still to be
written. -/
def respaced (before : Option Char) (gap : Gap) : List Token → List Token
  | [] => []
  | .lineComment _ :: rest => respaced before gap rest
  | .blockComment text :: rest | .blank text :: rest => respaced before (gap.widen text) rest
  | .literal text :: rest =>
    match text with
    | [] => respaced before gap rest
    | c :: _ =>
      gapTokens (separator before c gap) ++
        .literal text :: respaced (text.getLast?.or before) .none rest
  | .char c :: rest =>
    gapTokens (separator before c gap) ++ .char c :: respaced (some c) .none rest

theorem text_gapTokens (s : List Char) : (gapTokens s).flatMap Token.text = s := by
  unfold gapTokens
  split
  · rename_i h
    rw [h]
    rfl
  · simp [Token.text]

/-- Joined tokens are the text of the tokens with their gaps chosen anew. -/
theorem text_respaced (b : Option Char) (gap : Gap) (ts : List Token) :
    (respaced b gap ts).flatMap Token.text = joinFrom b gap ts := by
  fun_induction respaced b gap ts with
  | case1 => rfl
  | case2 b gap text rest ih => exact ih
  | case3 b gap text rest ih => exact ih
  | case4 b gap text rest ih => exact ih
  | case5 b gap rest ih => exact ih
  | case6 b gap rest c u ih =>
    rw [List.flatMap_append, List.flatMap_cons, text_gapTokens, ih, joinFrom, List.append_assoc]
    rfl
  | case7 b gap c rest ih =>
    rw [List.flatMap_append, List.flatMap_cons, text_gapTokens, ih, joinFrom]
    rfl

theorem compact_eq (s : List Char) : compact s = (respaced none .none (tokens s)).flatMap Token.text :=
  (text_respaced _ _ _).symm

/-- What comes behind a slash and a gap makes no comment of it. -/
theorem ne_of_first?_respaced {ts : List Token} {gap : Gap} (hgap : gap ≠ .none) {d : Char}
    (h : first? (respaced (some '/') gap ts) = some d) : d ≠ '/' ∧ d ≠ '*' := by
  rw [first?, text_respaced] at h
  have hd := isFirm_of_head_joinFrom (by decide) hgap h
  refine ⟨?_, ?_⟩ <;> rintro rfl <;> exact absurd hd (by decide)

/-- A slash that began no comment begins none between the new gaps either. -/
theorem slash_respaced {ts : List Token} (hts : Scanned ts)
    (hslash : ∀ d, first? ts = some d → d ≠ '/' ∧ d ≠ '*') {d : Char}
    (h : first? (respaced (some '/') .none ts) = some d) : d ≠ '/' ∧ d ≠ '*' := by
  cases hts with
  | nil => cases h
  | lineComment w _ => exact absurd rfl (hslash '/' rfl).1
  | blockComment w _ => exact ne_of_first?_respaced (Gap.widen_ne_none _ w) h
  | blank w _ => exact ne_of_first?_respaced (Gap.widen_ne_none _ w) h
  | _ =>
    rw [first?, text_respaced, joinFrom, separator_none] at h
    exact hslash d h

theorem separate_gapTokens {b : Option Char} {c : Char} {gap : Gap} {ts : List Token}
    (hts : Separate ts) (hfirst : first? ts = some c) (hc : isBlank c = false) :
    Separate (gapTokens (separator b c gap) ++ ts) := by
  have hblank : ∀ d ∈ separator b c gap, isBlank d = true := by
    intro d hd
    rcases mem_separator hd with rfl | rfl <;> decide
  cases hs : separator b c gap with
  | nil => exact hts
  | cons e w =>
    rw [hs] at hblank
    refine .blank (hblank e (by simp)) (fun d hd => hblank d (by simp [hd])) (fun d hd => ?_) hts
    rw [Option.some.inj (hd.symm.trans hfirst)]
    exact hc

/-- Tokens with their gaps chosen anew do not run together. -/
theorem separate_respaced {ts : List Token} (hts : Scanned ts) (b : Option Char) (gap : Gap) :
    Separate (respaced b gap ts) := by
  induction hts generalizing b gap with
  | nil => exact .nil
  | lineComment w _ ih => exact ih b gap
  | blockComment w _ ih => exact ih b (gap.widen w)
  | blank w _ ih => exact ih b (gap.widen w)
  | @char c ts hquote hblank hslash hts ih =>
    refine separate_gapTokens (.char hquote hblank (fun hc d hd => ?_) (ih (some c) .none)) rfl hblank
    subst hc
    exact slash_respaced hts (hslash rfl) hd
  | @literal q u ts hq hu _ ih =>
    exact separate_gapTokens (.literal hq hu (ih _ .none)) rfl (ne_of_isQuote hq).2.2
  | @unclosed q u hq hu => exact separate_gapTokens (.unclosed hq hu) rfl (ne_of_isQuote hq).2.2

/-- A scan of a compact script finds the tokens of the script with their gaps chosen anew. -/
theorem tokens_compact {s : List Char} (h : Uncut (tokens s)) :
    tokens (compact s) = respaced none .none (tokens s) := by
  rw [compact_eq, (separate_respaced (scanned_tokens s h) none .none).tokens_text]

/-! ### Lexemes -/

/-- A literal or a single character: what compacting keeps. -/
def Token.isLexeme : Token → Bool
  | literal _ | char _ => true
  | _ => false

theorem filter_gapTokens (s : List Char) : (gapTokens s).filter Token.isLexeme = [] := by
  unfold gapTokens
  split <;> rfl

theorem filter_respaced {ts : List Token} (hts : Scanned ts) (b : Option Char) (gap : Gap) :
    (respaced b gap ts).filter Token.isLexeme = ts.filter Token.isLexeme := by
  induction hts generalizing b gap with
  | nil => rfl
  | lineComment w _ ih => exact ih b gap
  | blockComment w _ ih => exact ih b (gap.widen w)
  | blank w _ ih => exact ih b (gap.widen w)
  | @char c ts _ _ _ _ ih =>
    rw [respaced, List.filter_append, filter_gapTokens]
    exact congrArg (Token.char c :: ·) (ih _ .none)
  | @literal q u ts _ _ _ ih =>
    rw [respaced, List.filter_append, filter_gapTokens]
    exact congrArg (Token.literal (q :: u) :: ·) (ih _ .none)
  | unclosed _ _ =>
    rw [respaced, List.filter_append, filter_gapTokens]
    rfl

/-- The text of a literal. -/
def Token.literal? : Token → Option (List Char)
  | .literal text => some text
  | _ => none

/-- The literals of a script in order. -/
def literals (s : List Char) : List (List Char) := (tokens s).filterMap Token.literal?

theorem filterMap_literal? (ts : List Token) :
    ts.filterMap Token.literal? = (ts.filter Token.isLexeme).filterMap Token.literal? := by
  rw [List.filterMap_filter]
  refine List.filterMap_congr fun t _ => ?_
  cases t <;> rfl

/-- A compact script has the literals of the script. -/
theorem literals_compact {s : List Char} (h : Uncut (tokens s)) : literals (compact s) = literals s := by
  rw [literals, tokens_compact h, filterMap_literal?, filter_respaced (scanned_tokens s h),
    ← filterMap_literal?, literals]

/-! ### Compacting twice -/

/-- The gap that white space makes. -/
def gapOf (s : List Char) : Gap := if s = [] then .none else Gap.none.widen s

theorem joinFrom_gapTokens (b : Option Char) (s : List Char) (ts : List Token) :
    joinFrom b .none (gapTokens s ++ ts) = joinFrom b (gapOf s) ts := by
  unfold gapTokens gapOf
  split
  · rfl
  · rfl

/-- What was left of a gap is left of it once more. -/
theorem separator_gapOf (b : Option Char) (c : Char) (gap : Gap) :
    separator b c (gapOf (separator b c gap)) = separator b c gap := by
  by_cases hnil : separator b c gap = []
  · rw [hnil, gapOf, if_pos rfl, separator_none]
  · have hgap : gapOf (separator b c gap) = gap := by
      unfold separator at hnil ⊢
      split
      · exact absurd rfl hnil
      · split
        · rename_i h
          exact absurd (by simp only [if_pos h]) hnil
        · rename_i h
          split
          · rename_i h'
            exact absurd (by simp only [if_neg h, if_pos h']) hnil
          · cases gap with
            | none => rfl
            | space => decide
            | newline => decide
    rw [hgap]

theorem joinFrom_respaced (b : Option Char) (gap : Gap) (ts : List Token) :
    joinFrom b .none (respaced b gap ts) = joinFrom b gap ts := by
  fun_induction respaced b gap ts with
  | case1 => rfl
  | case2 b gap text rest ih => exact ih
  | case3 b gap text rest ih => exact ih
  | case4 b gap text rest ih => exact ih
  | case5 b gap rest ih => exact ih
  | case6 b gap rest c u ih => rw [joinFrom_gapTokens, joinFrom, separator_gapOf, ih, joinFrom]
  | case7 b gap c rest ih => rw [joinFrom_gapTokens, joinFrom, separator_gapOf, ih, joinFrom]

/-- Compacting a compact script changes nothing. -/
theorem compact_compact {s : List Char} (h : Uncut (tokens s)) : compact (compact s) = compact s := by
  rw [compact, tokens_compact h, joinFrom_respaced, compact]

/-! ### Complete scripts -/

theorem closedBy_body {q : Char} (hq : isQuote q = true) {u : List Char} (h : LiteralBody q u) :
    ClosedBy q (u ++ [q]) := by
  intro v
  rw [List.append_assoc]
  exact literalRest_of_body (ne_of_isQuote hq).2.1 h v

theorem mem_tokens_of_blank {c : Char} (hc : isBlank c = true) {s : List Char} {t : Token}
    (h : t ∈ tokens (c :: s)) : (∃ w, t = .blank w) ∨ t ∈ tokens s := by
  rw [tokens_of_blank hc] at h
  rcases List.mem_cons.1 h with h | h
  · exact .inl ⟨_, h⟩
  · right
    cases s with
    | nil => exact h
    | cons d s =>
      cases hd : isBlank d with
      | false => rwa [List.dropWhile_cons_of_neg (by simp [hd])] at h
      | true =>
        rw [List.dropWhile_cons_of_pos hd] at h
        rw [tokens_of_blank hd]
        exact List.mem_cons_of_mem _ h

theorem Complete.closedBy {s : List Char} (h : Complete s) {q : Char} {u : List Char}
    (hm : .literal (q :: u) ∈ tokens s) : ClosedBy q u := by
  induction h with
  | nil => simp at hm
  | @char c s hc hquote hslash _ ih =>
    cases hb : isBlank c with
    | false =>
      rw [tokens_of_solid hslash hquote hb] at hm
      rcases List.mem_cons.1 hm with hm | hm
      · cases hm
      · exact ih hm
    | true =>
      rcases mem_tokens_of_blank hb hm with ⟨w, hw⟩ | hm
      · cases hw
      · exact ih hm
  | @literal q' u' s hq hu _ ih =>
    rw [tokens_of_quote hq hu] at hm
    rcases List.mem_cons.1 hm with hm | hm
    · injection hm with hm
      obtain ⟨rfl, rfl⟩ := List.cons.inj hm
      exact closedBy_body hq hu
    · exact ih hm

/-- No newline cuts a literal of a complete script short. -/
theorem Complete.uncut {s : List Char} (h : Complete s) : Uncut (tokens s) := by
  intro us q u vs hts
  exact .inl (h.closedBy (by rw [hts]; simp))

end PagePress.Script
