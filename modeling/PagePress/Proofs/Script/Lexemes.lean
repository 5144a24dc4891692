import Mathlib
import PagePress.Proofs.Script.Respace

/-!
What compacting leaves between the lexemes of a script, its literals and single characters. A scan
of the compact script finds the lexemes of the script and no comment, and between two of them
stands what `kept` makes of the text between them in the script.
-/

namespace PagePress.Script

open Text

/-! ### Literals cut short -/

/-- A newline cuts a quoted literal of the script short. -/
def CutShort (s : List Char) : Prop :=
  ∃ ts q u vs, tokens s = ts ++ .literal (q :: u) :: vs ∧ (q = '\'' ∨ q = '"') ∧ ¬ ClosedBy q u ∧
    first? vs = some '\n'

/-- A literal ends with its mark, with the script, or before a newline. -/
theorem literalRest_ends (q : Char) (s : List Char) (hq : q ≠ '\\') :
    ClosedBy q (literalRest q s).1 ∨ (literalRest q s).2 = [] ∨
      (q ≠ '\x60' ∧ (literalRest q s).2.head? = some '\n') := by
  fun_induction literalRest q s with
  | case1 => exact .inr (.inl rfl)
  | case2 => exact .inr (.inl rfl)
  | case3 c rest text after heq ih =>
    rw [heq] at ih
    refine ih.imp_left fun h v => ?_
    rw [List.cons_append, List.cons_append, literalRest, h v]
  | case4 rest h1 h2 =>
    refine .inl fun v => ?_
    rw [List.singleton_append, literalRest.eq_def]
    split <;> simp_all
  | case5 c rest h1 h2 hne hcut =>
    simp only [Bool.and_eq_true, decide_eq_true_eq, bne_iff_ne] at hcut
    exact .inr (.inr ⟨hcut.2, by rw [hcut.1]; rfl⟩)
  | case6 c rest h1 h2 hne hcut text after heq ih =>
    rw [heq] at ih
    refine ih.imp_left fun h v => ?_
    have hslash : c ≠ '\\' := by
      rintro rfl
      cases rest with
      | nil => exact h1 rfl rfl
      | cons d r => exact h2 d r rfl rfl
    rw [List.cons_append, literalRest.eq_def]
    split
    · simp_all
    · simp_all
    · simp_all
    · rename_i d r _ _ he
      obtain ⟨rfl, rfl⟩ := List.cons.inj he
      rw [if_neg hne, if_neg hcut, h v]


/-- Where a literal of a script comes from, and what the scan goes on with. -/
theorem exists_literalRest {s : List Char} {us : List Token} {q : Char} {u : List Char} {vs : List Token}
    (h : tokens s = us ++ .literal (q :: u) :: vs) :
    isQuote q = true ∧ ∃ r, u = (literalRest q r).1 ∧ vs = tokens (literalRest q r).2 := by
  fun_induction tokens s generalizing us with
  | case1 => simp at h
  | case4 c rest _ _ hq _ ih =>
    rcases List.cons_eq_append_iff.1 h with ⟨-, h⟩ | ⟨us', -, h⟩
    · obtain ⟨ht, rfl⟩ := List.cons.inj h
      injection ht with ht
      obtain ⟨rfl, rfl⟩ := List.cons.inj ht
      exact ⟨hq, rest, rfl, rfl⟩
    · exact ih h
  | _ =>
    rename_i ih
    rcases List.cons_eq_append_iff.1 h with ⟨-, h⟩ | ⟨us', -, h⟩
    · cases (List.cons.inj h).1
    · exact ih h

theorem uncut_of_not_cutShort {s : List Char} (h : ¬ CutShort s) : Uncut (tokens s) := by
  intro us q u vs hs
  obtain ⟨hq, r, hu, hvs⟩ := exists_literalRest hs
  rcases literalRest_ends q r (ne_of_isQuote hq).2.1 with hclosed | hend | ⟨hmark, hline⟩
  · exact .inl (hu ▸ hclosed)
  · right
    rw [hvs, hend, tokens_nil]
  · by_cases hclosed : ClosedBy q u
    · exact .inl hclosed
    · refine absurd ⟨us, q, u, vs, hs, ?_, hclosed, by rw [hvs, first?_tokens, hline]⟩ h
      simp only [isQuote, Bool.or_eq_true, beq_iff_eq] at hq
      exact hq.resolve_right hmark

/-! ### Lexemes -/

/-- The lexemes of a script in order. -/
def lexemes (s : List Char) : List Token := (tokens s).filter Token.isLexeme

def Token.isComment : Token → Bool
  | lineComment _ | blockComment _ => true
  | _ => false

theorem isComment_of_mem_respaced {b : Option Char} {gap : Gap} {ts : List Token} {t : Token}
    (h : t ∈ respaced b gap ts) : t.isComment = false := by
  have hgap : ∀ s, t ∈ gapTokens s → t.isComment = false := by
    intro s ht
    unfold gapTokens at ht
    split at ht
    · cases ht
    · rw [List.mem_singleton.1 ht]
      rfl
  fun_induction respaced b gap ts with
  | case1 => cases h
  | case2 b gap text rest ih => exact ih h
  | case3 b gap text rest ih => exact ih h
  | case4 b gap text rest ih => exact ih h
  | case5 b gap rest ih => exact ih h
  | case6 b gap rest c u ih =>
    rcases List.mem_append.1 h with h | h
    · exact hgap _ h
    · rcases List.mem_cons.1 h with rfl | h
      · rfl
      · exact ih h
  | case7 b gap c rest ih =>
    rcases List.mem_append.1 h with h | h
    · exact hgap _ h
    · rcases List.mem_cons.1 h with rfl | h
      · rfl
      · exact ih h

/-! ### Between two lexemes -/

/-- The lexemes after `a`, each with the one before it and the text between the two, of which `gap`
has been read. -/
def neighboursFrom (a : Token) (gap : List Char) : List Token → List (Token × List Char × Token)
  | [] => []
  | t :: ts =>
    if t.isLexeme then (a, gap, t) :: neighboursFrom t [] ts
    else neighboursFrom a (gap ++ t.text) ts

/-- Any two consecutive lexemes among some tokens, with the text between them. -/
def neighbours : List Token → List (Token × List Char × Token)
  | [] => []
  | t :: ts => if t.isLexeme then neighboursFrom t [] ts else neighbours ts

/-- What is left of the text between two lexemes: a newline if it had one, else a space, and nothing
next to the marks that separate lexemes by themselves. -/
def kept (a : Token) (gap : List Char) (b : Token) : List Char :=
  if gap = [] then []
  else if a.text.getLast?.any isOpener || b.text.head?.any isCloser then []
  else if '\n' ∈ gap then ['\n']
  else if a.text.getLast?.any isTightAfter || b.text.head?.any isTightBefore then []
  else [' ']

theorem gapOf_nil : Gap.none = gapOf [] := rfl

theorem gapOf_of_mem {g : List Char} (h : '\n' ∈ g) : gapOf g = .newline := by
  have hne : g ≠ [] := List.ne_nil_of_mem h
  simp [gapOf, hne, Gap.widen, h]

theorem gapOf_of_not_mem {g : List Char} (hne : g ≠ []) (h : '\n' ∉ g) : gapOf g = .space := by
  simp [gapOf, hne, Gap.widen, h]

/-- More white space, or a comment, makes a gap wider. -/
theorem widen_gapOf {w : List Char} (hw : w ≠ []) (g : List Char) :
    (gapOf g).widen w = gapOf (g ++ w) := by
  by_cases hline : '\n' ∈ w
  · rw [gapOf_of_mem (List.mem_append_right g hline), Gap.widen, if_pos (by simpa using hline)]
  · rw [Gap.widen, if_neg (by simpa using hline)]
    by_cases hg : '\n' ∈ g
    · rw [gapOf_of_mem hg, gapOf_of_mem (List.mem_append_left w hg)]
      rfl
    · have happend : gapOf (g ++ w) = .space := gapOf_of_not_mem (by simp [hw]) (by simp [hg, hline])
      by_cases hnil : g = []
      · rw [happend, hnil]
        rfl
      · rw [happend, gapOf_of_not_mem hnil hg]
        rfl

theorem separator_eq_kept {a b : Token} {c d : Char} (ha : a.text.getLast? = some c)
    (hb : b.text.head? = some d) (g : List Char) : separator (some c) d (gapOf g) = kept a g b := by
  rw [kept, ha, hb]
  simp only [Option.any_some]
  by_cases hg : g = []
  · rw [if_pos hg, hg]
    exact separator_none _ _
  · rw [if_neg hg, separator]
    by_cases hmark : (isOpener c || isCloser d) = true
    · rw [if_pos hmark, if_pos hmark]
    · rw [if_neg hmark, if_neg hmark]
      by_cases hline : '\n' ∈ g
      · rw [gapOf_of_mem hline, if_pos hline]
        rfl
      · rw [gapOf_of_not_mem hg hline, if_neg hline]
        simp [Gap.text]

theorem neighboursFrom_gapTokens (a t : Token) (ht : t.isLexeme = true) (s : List Char)
    (ts : List Token) :
    neighboursFrom a [] (gapTokens s ++ t :: ts) = (a, s, t) :: neighboursFrom t [] ts := by
  unfold gapTokens
  split
  · rename_i h
    rw [List.nil_append, neighboursFrom, if_pos ht, h]
  · rw [List.singleton_append, neighboursFrom, if_neg (by simp [Token.isLexeme]), neighboursFrom,
      if_pos ht]
    rfl

/-- Compacting behind a lexeme keeps what is kept of each gap. The gap chosen so far is that of the
text read so far, but for a line comment, which only a newline or the end of the script can follow. -/
theorem neighboursFrom_respaced {s : List Char} {a : Token} {e : Char}
    (ha : a.text.getLast? = some e) {gap : Gap} {g : List Char}
    (hgap : gap = gapOf g ∨ ∀ c ∈ s.head?, c = '\n') :
    neighboursFrom a [] (respaced (some e) gap (tokens s)) =
      (neighboursFrom a g (tokens s)).map fun (a, g, t) => (a, kept a g t, t) := by
  fun_induction tokens s generalizing a e gap g with
  | case1 => rfl
  | case2 rest _ ih =>
    have hrest : ∀ c ∈ (rest.dropWhile (· != '\n')).head?, c = '\n' := by
      intro c hc
      have := List.head?_dropWhile_not (· != '\n') rest
      rw [Option.mem_def.1 hc] at this
      simpa using this
    exact ih ha (.inr hrest)
  | case3 rest _ ih =>
    have hgap := hgap.resolve_right fun h => absurd (h '/' rfl) (by decide)
    have hwiden := widen_gapOf (w := '/' :: '*' :: (commentRest rest).1) (by simp) g
    exact ih ha (.inl (hgap ▸ hwiden))
  | case4 c rest _ _ hq _ ih =>
    have hgap : gap = gapOf g := hgap.resolve_right fun h => by
      rw [h c rfl] at hq
      exact absurd hq (by decide)
    have hlast := List.getLast?_eq_some_getLast (List.cons_ne_nil c (literalRest c rest).1)
    have hnext := ih (a := .literal (c :: (literalRest c rest).1)) hlast (.inl gapOf_nil)
    rw [respaced, neighboursFrom_gapTokens a _ rfl, hlast, Option.some_or, hnext, hgap,
      separator_eq_kept (b := .literal (c :: (literalRest c rest).1)) ha rfl, neighboursFrom]
    rfl
  | case5 c rest _ _ hq hb _ ih =>
    refine ih ha (.inl ?_)
    rcases hgap with rfl | hline
    · exact widen_gapOf (by simp) g
    · obtain rfl := hline c rfl
      rw [gapOf_of_mem (by simp [Token.text])]
      rfl
  | case6 c rest _ _ hq hb ih =>
    have hgap : gap = gapOf g := hgap.resolve_right fun h => by
      rw [h c rfl] at hb
      exact absurd rfl hb
    have hnext := ih (a := .char c) (e := c) rfl (.inl gapOf_nil)
    rw [respaced, neighboursFrom_gapTokens a _ rfl, hnext, hgap, separator_eq_kept
      (b := .char c) ha rfl, neighboursFrom]
    rfl

theorem neighbours_gapTokens (t : Token) (ht : t.isLexeme = true) (s : List Char) (ts : List Token) :
    neighbours (gapTokens s ++ t :: ts) = neighboursFrom t [] ts := by
  unfold gapTokens
  split
  · rw [List.nil_append, neighbours, if_pos ht]
  · rw [List.singleton_append, neighbours, if_neg (by simp [Token.isLexeme]), neighbours, if_pos ht]

theorem neighbours_respaced (s : List Char) (gap : Gap) :
    neighbours (respaced none gap (tokens s)) =
      (neighbours (tokens s)).map fun (a, g, t) => (a, kept a g t, t) := by
  fun_induction tokens s generalizing gap with
  | case1 => rfl
  | case2 rest _ ih => exact ih gap
  | case3 rest _ ih => exact ih _
  | case4 c rest _ _ hq _ _ =>
    have hlast := List.getLast?_eq_some_getLast (List.cons_ne_nil c (literalRest c rest).1)
    rw [respaced, neighbours_gapTokens _ rfl, hlast, Option.some_or, neighbours]
    exact neighboursFrom_respaced (a := .literal _) hlast (.inl rfl)
  | case5 c rest _ _ hq hb _ ih => exact ih _
  | case6 c rest _ _ hq hb _ =>
    rw [respaced, neighbours_gapTokens _ rfl, neighbours]
    exact neighboursFrom_respaced rfl (.inl rfl)

/-- A scan of a compact script finds the lexemes of the script and no comment, between two of them
what is kept of the text between them, and nothing more to compact. -/
theorem lexemes_compact {s : List Char} (h : ¬ CutShort s) :
    (lexemes (compact s) = lexemes s ∧ ∀ t ∈ tokens (compact s), t.isComment = false) ∧
      neighbours (tokens (compact s)) =
        (neighbours (tokens s)).map (fun (a, g, t) => (a, kept a g t, t)) ∧
      compact (compact s) = compact s := by
  have huncut := uncut_of_not_cutShort h
  have htokens := tokens_compact huncut
  refine ⟨⟨?_, fun t ht => ?_⟩, ?_, compact_compact huncut⟩
  · rw [lexemes, htokens, filter_respaced (scanned_tokens s huncut), lexemes]
  · rw [htokens] at ht
    exact isComment_of_mem_respaced ht
  · rw [htokens, neighbours_respaced]

/-- A script with comments, with slashes and newlines in its literals, and with a newline that may end
a statement. -/
def commented : List Char := "a = '//' // one\n+ /* two */ \x60b\n\x60 / ( c );".toList

theorem lexemes_compact_commented : ¬ CutShort commented ∧
    (lexemes (compact commented) = lexemes commented ∧
      ∀ t ∈ tokens (compact commented), t.isComment = false) ∧
    neighbours (tokens (compact commented)) =
      (neighbours (tokens commented)).map (fun (a, g, t) => (a, kept a g t, t)) ∧
    compact (compact commented) = compact commented := by
  have huncut : ¬ CutShort commented := by
    rintro ⟨ts, q, u, vs, hs, hq, hclosed, -⟩
    have hmem : q :: u ∈ literals commented := by simp [literals, hs, Token.literal?]
    have hliterals : literals commented = [['\'', '/', '/', '\''], ['\x60', 'b', '\n', '\x60']] := by cbv
    simp only [hliterals, List.mem_cons, List.cons.injEq, List.not_mem_nil, or_false] at hmem
    have hbody : LiteralBody '\'' ['/', '/'] := by
      repeat refine .plain (by decide) (by decide) (by decide) (by decide) ?_
      exact .nil
    rcases hmem with ⟨rfl, rfl⟩ | ⟨rfl, -⟩
    · exact hclosed (closedBy_body (by decide) hbody)
    · exact absurd hq (by decide)
  exact ⟨huncut, lexemes_compact huncut⟩

end PagePress.Script
