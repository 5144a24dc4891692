import PagePress.Proofs.Stylesheet.Lexemes

/-!
What a stylesheet says: its strings as they are written, and the tokens between them, where comments
and white space only keep words apart. The passes know no strings and join what a comment keeps
apart, so compacting keeps the content of a stylesheet whose strings it leaves alone by themselves and
whose comments keep nothing apart (`Harmless`).
-/

namespace PagePress.Stylesheet

open Text Reduce

/-! ### Strings and tokens -/

def isComment : Segment Lexeme → Bool
  | .piece _ .comment => true
  | _ => false

/-- The segments without comments. -/
def bare (p : List (Segment Lexeme)) : List (Segment Lexeme) := p.filter fun x => !isComment x

/-- The characters outside of strings and comments. -/
def plainChars (p : List (Segment Lexeme)) : List Char :=
  p.filterMap fun
    | .plain c => some c
    | .piece _ _ => none

/-- The strings among some segments. -/
def stringsOf (p : List (Segment Lexeme)) : List (List Char) :=
  p.filterMap fun
    | .piece u .string => some u
    | _ => none

/-- The quoted strings of a stylesheet in order. -/
def strings (css : List Char) : List (List Char) := stringsOf (lexemes css)

/-- The tokens and strings of some segments behind the text `s`. A comment keeps words apart as white
space does. -/
def contentFrom (s : List Char) : List (Segment Lexeme) → List Token
  | [] => tokensFrom [] s
  | .plain c :: p => contentFrom (s ++ [c]) p
  | .piece _ .comment :: p => contentFrom (s ++ [' ']) p
  | .piece u .string :: p => tokensFrom [] s ++ .string u :: contentFrom [] p

/-- The names, numbers, marks and strings of a stylesheet in order. -/
def content (css : List Char) : List Token := contentFrom [] (lexemes css)

theorem mem_plainChars {p : List (Segment Lexeme)} {c : Char} : c ∈ plainChars p ↔ .plain c ∈ p := by
  rw [plainChars, List.mem_filterMap]
  constructor
  · rintro ⟨_ | _, hx, h⟩
    · exact Option.some.inj h ▸ hx
    · cases h
  · exact fun h => ⟨_, h, rfl⟩

theorem mem_stringsOf {p : List (Segment Lexeme)} {u : List Char} :
    u ∈ stringsOf p ↔ .piece u .string ∈ p := by
  rw [stringsOf, List.mem_filterMap]
  constructor
  · rintro ⟨_ | ⟨v, _ | _⟩, hx, h⟩
    · cases h
    · cases h
    · exact Option.some.inj h ▸ hx
  · exact fun h => ⟨_, h, rfl⟩

theorem stringsOf_append (p p' : List (Segment Lexeme)) :
    stringsOf (p ++ p') = stringsOf p ++ stringsOf p' := List.filterMap_append

theorem stringsOf_map_plain (s : List Char) : stringsOf (s.map .plain) = [] := by
  simp [stringsOf]

theorem contentFrom_map_plain (s t : List Char) (p : List (Segment Lexeme)) :
    contentFrom s (t.map .plain ++ p) = contentFrom (s ++ t) p := by
  induction t generalizing s with
  | nil => simp
  | cons c t ih =>
    rw [List.map_cons, List.cons_append, contentFrom, ih, List.append_assoc, List.singleton_append]

/-! ### Comments -/

/-- Between two characters that only comments keep apart, no comment begins once these are gone; and
where there are comments, the two do not both belong to words. `before` is the character before the
segments, `commented` whether a comment is between. -/
def apart (before : Option Char) (commented : Bool) : List (Segment Lexeme) → Bool
  | [] => true
  | .plain c :: p =>
    before.all (fun a => decide (Unopened a c) && !(commented && continues a && continues c)) &&
      apart (some c) false p
  | .piece _ .comment :: p => apart before true p
  | .piece _ .string :: p => apart none false p

/-- The comments of a stylesheet are what goes in the first place. -/
theorem replaceFrom_comment? {b : Option Char} {css : List Char}
    (h : ∀ u ∈ stringsOf (segmentsFrom lexeme? b css), u.IsChain Unopened) :
    replaceFrom comment? b css = source (bare (segmentsFrom lexeme? b css)) := by
  fun_induction segmentsFrom lexeme? b css with
  | case1 => simp [bare]
  | case2 b c s hnone ih =>
    have hcomment : comment? b (c :: s) = none := by
      unfold lexeme? at hnone
      split at hnone
      · cases hnone
      · assumption
    rw [replaceFrom_of_none hcomment, ih h]
    rfl
  | case3 b c s l k hk hnil ih =>
    rcases lexeme?_eq_some hk with ⟨-, hcomment⟩ | ⟨-, hquoted⟩
    · rw [replaceFrom_of_empty hcomment hnil, ih h]
      rfl
    · exact absurd hnil hquoted.ne_nil
  | case4 b c s l k hk hne _ ih =>
    rcases lexeme?_eq_some hk with ⟨rfl, hcomment⟩ | ⟨rfl, hquoted⟩
    · rw [replaceFrom_of_some hne hcomment rfl]
      exact ih h
    · have hpasses := (hquoted.passes_comment (h k.text (mem_stringsOf.2 (by simp)))).replaceAll k.rest
      rw [k.append_eq] at hpasses
      rw [replaceFrom_eq_replaceAll contextFree_comment, hpasses,
        ← replaceFrom_eq_replaceAll contextFree_comment (k.last b), ih fun u hu => h u ?_]
      · rfl
      · exact mem_stringsOf.2 (by simp [mem_stringsOf.1 hu])

/-- White space that keeps no two words apart changes no token. -/
theorem tokensFrom_space {w s x : List Char} {b : Option Char} (hw : w ≠ [] → b.any continues = true)
    (h : ∀ a ∈ s.getLast?.or b, continues a = true → ∀ c ∈ x.head?, continues c = false) :
    tokensFrom w (s ++ ' ' :: x) = tokensFrom w (s ++ x) := by
  induction s generalizing w b with
  | nil =>
    rw [List.nil_append, List.nil_append, tokensFrom_of_blank (by decide)]
    by_cases hnil : w = []
    · rw [hnil]
      rfl
    · obtain ⟨a, rfl, ha⟩ := (Option.any_eq_true _ _).1 (hw hnil)
      have hx := h a rfl ha
      cases x with
      | nil => simp
      | cons c x =>
        have hc := hx c rfl
        by_cases hblank : isBlank c = true
        · rw [tokensFrom_of_blank hblank, tokensFrom_of_blank hblank]
          rfl
        · have hblank : isBlank c = false := by simpa using hblank
          rw [tokensFrom_of_mark hblank hc, tokensFrom_of_mark hblank hc]
          rfl
  | cons c s ih =>
    have hlast : (c :: s).getLast?.or b = s.getLast?.or (some c) := by
      cases hs : s.getLast? <;> simp [List.getLast?_cons, hs]
    rw [hlast] at h
    rw [List.cons_append, List.cons_append]
    unfold tokensFrom
    split
    · rw [ih (by simp) h]
    · split
      · rw [ih (by simpa) h]
      · rw [ih (by simp) h]

/-- Dropping comments that keep nothing apart changes no content. The texts read so far have the same
tokens whatever follows; behind a comment, unless a word would go on. -/
theorem contentFrom_bare {p : List (Segment Lexeme)} {s t : List Char} {m : Bool}
    (hapart : apart s.getLast? m p = true)
    (htokens : ∀ x : List Char, (m = true → ∀ a ∈ s.getLast?, continues a = true →
      ∀ c ∈ x.head?, continues c = false) → tokensFrom [] (t ++ x) = tokensFrom [] (s ++ x)) :
    contentFrom t p = contentFrom s (bare p) := by
  induction p generalizing s t m with
  | nil => simpa [bare, contentFrom] using htokens [] (by simp)
  | cons y p ih =>
    cases y with
    | plain c =>
      simp only [apart, Bool.and_eq_true, Option.all_eq_true] at hapart
      refine ih (s := s ++ [c]) (t := t ++ [c]) (m := false) (by simpa using hapart.2) fun x _ => ?_
      rw [List.append_assoc, List.append_assoc, List.singleton_append]
      refine htokens (c :: x) fun hm a ha hcontinues d hd => ?_
      obtain rfl : c = d := by simpa using hd
      have hac := hapart.1 a ha
      simpa [hm, hcontinues] using hac.2
    | piece u l =>
      cases l with
      | comment =>
        refine ih (s := s) (t := t ++ [' ']) (m := true) hapart fun x hx => ?_
        have hspace : ∀ d ∈ (' ' :: x).head?, continues d = false := by
          rintro d hd
          obtain rfl : ' ' = d := by simpa using hd
          decide
        rw [List.append_assoc, List.singleton_append, htokens (' ' :: x) fun _ _ _ _ => hspace]
        exact tokensFrom_space (b := none) (by simp) (by simpa using hx rfl)
      | string =>
        have hs : tokensFrom [] t = tokensFrom [] s := by simpa using htokens [] (by simp)
        show tokensFrom [] t ++ .string u :: contentFrom [] p = tokensFrom [] s ++ .string u ::
          contentFrom [] (bare p)
        rw [hs, ih (s := []) (t := []) hapart fun x _ => rfl]

/-- No comment begins once the comments are gone. -/
theorem isChain_bare {p : List (Segment Lexeme)} {b : Option Char} {m : Bool} (h : apart b m p = true) :
    (b.toList.map Segment.plain ++ bare p).IsChain NoOpening := by
  have hcons : ∀ {b : Option Char} {y : Segment Lexeme} {p : List (Segment Lexeme)},
      (∀ a ∈ b, NoOpening (.plain a) y) → (y :: p).IsChain NoOpening →
      (b.toList.map Segment.plain ++ y :: p).IsChain NoOpening := by
    intro b y p hb hp
    cases b with
    | none => exact hp
    | some a => exact List.isChain_cons_cons.2 ⟨hb a rfl, hp⟩
  induction p generalizing b m with
  | nil => cases b <;> simp [bare]
  | cons y p ih =>
    cases y with
    | plain c =>
      simp only [apart, Bool.and_eq_true, Option.all_eq_true, decide_eq_true_eq] at h
      refine hcons (fun a ha hslash hc => ?_) (ih (b := some c) h.2)
      exact (h.1 a ha).1 (Segment.plain.inj hslash) (Segment.plain.inj hc)
    | piece u l =>
      cases l with
      | comment => exact ih h
      | string =>
        refine hcons (fun a _ _ => by simp) (p := bare p) ((ih (b := none) h).cons fun _ _ hslash => ?_)
        cases hslash

/-! ### Strings go through -/

theorem trim_quote {q : Char} (hq : isQuote q = true) (w : List Char) :
    trim (q :: (w ++ [q])) = q :: (w ++ [q]) := by
  have hsolid : EndsSolid (q :: (w ++ [q])) := ⟨q :: w, q, rfl, not_blank_of_isQuote hq⟩
  have htrim : trim ([] ++ q :: (w ++ [q]) ++ []) = q :: (w ++ [q]) :=
    trim_of_solid (not_blank_of_isQuote hq) hsolid (by simp) (by simp)
  rwa [List.nil_append, List.append_nil] at htrim

theorem reduced_quote {q : Char} (hq : isQuote q = true) (w : List Char) :
    reduced (q :: (w ++ [q])) = q :: (reduced w ++ [q]) := by
  have hnil : reduced [] = [] := by simp [reduced]
  have hstart := reduced_append_quote hq [] (w ++ [q])
  rw [reduced_append_quote hq w [], hnil] at hstart
  exact hstart

/-- Of a string there is left what compacting makes of it by itself. -/
theorem Quoted.reduced_eq {u : List Char} (h : Quoted u) (hu : u.IsChain Unopened) :
    reduced u = compact u := by
  have hcomments : replaceAll comment? u = u := by simpa using (h.passes_comment hu).replaceAll []
  obtain ⟨q, w, hq, -, rfl⟩ := h
  rw [compact_eq_trim, hcomments, reduced_quote hq, trim_quote hq]

/-- It is a string again. -/
theorem Quoted.quoted_reduced {u : List Char} (h : Quoted u) : Quoted (reduced u) := by
  obtain ⟨q, w, hq, hw, rfl⟩ := h
  refine ⟨q, reduced w, hq, ?_, reduced_quote hq w⟩
  exact reduced_of_inert (P := fun w => inside q false w = true) (fun r hr w hw => hr.inside hq hw) hw

/-- Behind a text and in front of another one, a string is compacted by itself. -/
theorem Quoted.reduced_append {u : List Char} (h : Quoted u) (s t : List Char) :
    reduced (s ++ (u ++ t)) = reduced s ++ (reduced u ++ reduced t) := by
  obtain ⟨q, w, hq, -, rfl⟩ := h
  rw [List.cons_append, List.append_assoc, List.singleton_append, reduced_append_quote hq,
    reduced_append_quote hq, reduced_quote hq, List.cons_append, List.append_assoc, List.singleton_append]

/-- A token with its string compacted by itself. -/
def compactToken : Token → Token
  | .string u => .string (compact u)
  | t => t

theorem compactToken_ofWord (w : List Char) : compactToken (ofWord w) = ofWord w := by
  unfold ofWord
  split <;> rfl

/-- There is no string among the tokens of a text. -/
theorem map_compactToken (w s : List Char) :
    (tokensFrom w s).map compactToken = tokensFrom w s := by
  have hword : ∀ w, (wordTokens w).map compactToken = wordTokens w := fun w => by
    by_cases hw : w = []
    · rw [hw]
      rfl
    · rw [wordTokens_of_ne_nil hw, List.map_singleton, compactToken_ofWord]
  fun_induction tokensFrom w s with
  | case1 w => exact hword w
  | case2 w c s _ ih => rw [List.map_append, hword, ih]
  | case3 w c s _ _ ih => exact ih
  | case4 w c s _ _ ih =>
    rw [List.map_append, List.map_cons, hword, ih]
    rfl

theorem legible_reduced {s : List Char} (h : Legible (s.map .plain)) :
    Legible ((reduced s).map .plain) := by
  obtain ⟨hplain, hchain⟩ := legible_map_plain.1 h
  have hplain : ∀ c ∈ reduced s, isQuote c = false :=
    reduced_of_inert (P := fun s => ∀ c ∈ s, isQuote c = false) (fun r hr s hs => hr.forall_not_quote hs)
      hplain
  have hchain : (reduced s).IsChain Unopened := reduced_of_inert (fun r hr s hs => hr.isChain hs) hchain
  exact legible_map_plain.2 ⟨hplain, hchain⟩

/-- What compacting leaves of a text behind `s` reads as the strings of the text, each compacted by
itself, and the tokens between them. -/
theorem exists_reduced {p : List (Segment Lexeme)} {s : List Char} (h : Legible (s.map .plain ++ p))
    (hunopened : ∀ u ∈ stringsOf p, u.IsChain Unopened) (hdigits : PlainDigits (s ++ plainChars p)) :
    ∃ r, Legible r ∧ source r = reduced (s ++ source p) ∧ stringsOf r = (stringsOf p).map compact ∧
      contentFrom [] r = (closeBlocks (contentFrom s p)).map compactToken := by
  -- characters are added to the text until a string comes, which cuts the passes off
  induction p generalizing s with
  | nil =>
    rw [List.append_nil] at h
    refine ⟨(reduced s).map .plain, legible_reduced h, by simp, stringsOf_map_plain _, ?_⟩
    have hcontent := contentFrom_map_plain [] (reduced s) []
    have htokens := tokens_reduced (s := s) (by simpa [plainChars] using hdigits)
    rw [List.append_nil, List.nil_append] at hcontent
    rw [hcontent, contentFrom, contentFrom, ← htokens, map_compactToken]
  | cons x p ih =>
    cases x with
    | plain c =>
      have hs : s.map Segment.plain ++ .plain c :: p = (s ++ [c]).map .plain ++ p := by simp
      have hchars : s ++ plainChars (.plain c :: p) = s ++ [c] ++ plainChars p := by simp [plainChars]
      have ih := ih (s := s ++ [c]) (hs ▸ h) hunopened (hchars ▸ hdigits)
      rw [List.append_assoc] at ih
      exact ih
    | piece u l =>
      obtain ⟨rfl, hu⟩ := h.piece u l (by simp)
      have hs : Legible (s.map .plain) := h.of_isInfix (List.prefix_append _ _).isInfix
      have hp : Legible p := h.of_isInfix ((List.suffix_cons _ p).trans (List.suffix_append _ _)).isInfix
      have htokens := tokens_reduced (s := s) fun c hc => hdigits c (List.mem_append_left _ hc)
      have hstring : reduced u = compact u :=
        hu.reduced_eq (hunopened u (mem_stringsOf.2 (by simp)))
      obtain ⟨r, hr, hsource, hstrings, hcontent⟩ := ih (s := []) hp
        (fun v hv => hunopened v (mem_stringsOf.2 (by simp [mem_stringsOf.1 hv])))
        fun c hc => hdigits c (List.mem_append_right _ hc)
      rw [List.nil_append] at hsource
      refine ⟨(reduced s).map .plain ++ .piece (compact u) .string :: r, ?_, ?_, ?_, ?_⟩
      · exact (legible_reduced hs).append_string (hstring ▸ hu.quoted_reduced) hr
      · rw [source_append, source_map_plain, source_piece, hsource, source_piece, hu.reduced_append, hstring]
      · rw [stringsOf_append, stringsOf_map_plain]
        exact congrArg (compact u :: ·) hstrings
      · rw [contentFrom_map_plain, List.nil_append, contentFrom, contentFrom, closeBlocks_append_string,
          List.map_append, List.map_cons, ← htokens, map_compactToken, hcontent, compactToken]

/-! ### White space at the ends -/

theorem tokensFrom_append_blanks {t : List Char} (ht : ∀ c ∈ t, isBlank c = true) (w s : List Char) :
    tokensFrom w (s ++ t) = tokensFrom w s := by
  induction s generalizing w with
  | nil =>
    induction t generalizing w with
    | nil => rfl
    | cons c t ih =>
      have ih := ih (fun d hd => ht d (by simp [hd])) []
      rw [List.nil_append] at ih
      rw [List.nil_append, tokensFrom_of_blank (ht c (by simp)), ih]
      simp
  | cons c s ih => exact tokensFrom_cons_congr ih w c

theorem tokensFrom_blanks_append {t : List Char} (ht : ∀ c ∈ t, isBlank c = true) (s : List Char) :
    tokensFrom [] (t ++ s) = tokensFrom [] s := by
  rw [← tokensFrom_dropWhile (t ++ s), List.dropWhile_append_of_pos ht, tokensFrom_dropWhile]

theorem contentFrom_append_blanks {t : List Char} (ht : ∀ c ∈ t, isBlank c = true) (s : List Char)
    (p : List (Segment Lexeme)) : contentFrom s (p ++ t.map .plain) = contentFrom s p := by
  fun_induction contentFrom s p with
  | case1 s =>
    have h := contentFrom_map_plain s t []
    rw [List.append_nil] at h
    rw [List.nil_append, h]
    exact tokensFrom_append_blanks ht [] s
  | case2 s c p ih => exact ih
  | case3 s u p ih => exact ih
  | case4 s u p ih => exact congrArg (tokensFrom [] s ++ .string u :: ·) ih

theorem contentFrom_blanks_append {t : List Char} (ht : ∀ c ∈ t, isBlank c = true) (s : List Char)
    (p : List (Segment Lexeme)) : contentFrom (t ++ s) p = contentFrom s p := by
  fun_induction contentFrom s p with
  | case1 s => exact tokensFrom_blanks_append ht s
  | case2 s c p ih => rw [contentFrom, List.append_assoc, ih]
  | case3 s u p ih => rw [contentFrom, List.append_assoc, ih]
  | case4 s u p ih => rw [contentFrom, tokensFrom_blanks_append ht]

/-- White space in front of some segments is white space among them. -/
theorem exists_of_source_blanks {r : List (Segment Lexeme)} (h : Legible r) {t v : List Char}
    (ht : ∀ c ∈ t, isBlank c = true) (hr : source r = t ++ v) :
    ∃ r', r = t.map .plain ++ r' ∧ source r' = v := by
  induction t generalizing r with
  | nil => exact ⟨r, rfl, hr⟩
  | cons c t ih =>
    cases r with
    | nil => cases hr
    | cons x r =>
      cases x with
      | plain d =>
        obtain ⟨rfl, htail⟩ : d = c ∧ source r = t ++ v := by simpa using hr
        obtain ⟨r', rfl, hv⟩ := ih h.tail (fun e he => ht e (by simp [he])) htail
        exact ⟨r', rfl, hv⟩
      | piece u l =>
        obtain ⟨q, w, hq, rfl⟩ := (h.piece u l (by simp)).2.exists_cons
        obtain ⟨rfl, -⟩ := List.cons.inj hr
        exact absurd (ht q (by simp)) (by simp [not_blank_of_isQuote hq])

/-- So is white space behind them. -/
theorem exists_of_source_append_blanks {r : List (Segment Lexeme)} (h : Legible r) {t v : List Char}
    (ht : ∀ c ∈ t, isBlank c = true) (hr : source r = v ++ t) :
    ∃ r', r = r' ++ t.map .plain ∧ source r' = v := by
  induction t using List.reverseRecOn generalizing r with
  | nil => exact ⟨r, by simp, by simpa using hr⟩
  | append_singleton t c ih =>
    rw [← List.append_assoc] at hr
    rcases List.eq_nil_or_concat r with rfl | ⟨r, x, rfl⟩
    · simp at hr
    · rw [List.concat_eq_append] at h hr ⊢
      rw [source_append] at hr
      cases x with
      | plain d =>
        obtain ⟨hinit, hd⟩ := List.append_inj' hr rfl
        obtain rfl : d = c := by simpa using hd
        obtain ⟨r', rfl, hv⟩ := ih (h.of_isInfix (List.prefix_append _ _).isInfix)
          (fun e he => ht e (by simp [he])) hinit
        exact ⟨r', by simp, hv⟩
      | piece u l =>
        obtain ⟨q, w, hq, -, rfl⟩ := (h.piece u l (by simp)).2
        have hlast := congrArg List.getLast? hr
        simp only [source_piece, source_nil, List.append_nil, ← List.cons_append, ← List.append_assoc,
          List.getLast?_concat, Option.some.injEq] at hlast
        exact absurd (ht c (by simp)) (by simp [← hlast, not_blank_of_isQuote hq])

/-- Trimming takes white space only. -/
theorem exists_trim {r : List (Segment Lexeme)} (h : Legible r) :
    ∃ r', Legible r' ∧ source r' = trim (source r) ∧ stringsOf r' = stringsOf r ∧
      contentFrom [] r' = contentFrom [] r := by
  obtain ⟨before, after, hcut, hbefore, hafter⟩ := exists_trim_eq (source r)
  rw [List.append_assoc] at hcut
  obtain ⟨r, rfl, hr⟩ := exists_of_source_blanks h hbefore hcut
  have hlegible := h.of_isInfix (List.suffix_append _ r).isInfix
  obtain ⟨r', rfl, hr'⟩ := exists_of_source_append_blanks hlegible hafter hr
  refine ⟨r', hlegible.of_isInfix (List.prefix_append _ _).isInfix, hr', ?_, ?_⟩
  · simp only [stringsOf_append, stringsOf_map_plain, List.nil_append, List.append_nil]
  · rw [contentFrom_map_plain, List.nil_append, ← List.append_nil before,
      contentFrom_blanks_append hbefore, contentFrom_append_blanks hafter]

/-! ### Compact stylesheets -/

/-- A stylesheet whose strings and comments are all closed. No string holds the opening of a comment, the
digits outside of strings are ASCII digits, and no comment keeps two characters apart that would run
together without it. -/
structure Harmless (css : List Char) : Prop where
  plain : ∀ c ∈ plainChars (lexemes css), isQuote c = false
  digits : PlainDigits (plainChars (lexemes css))
  unopened : ∀ u ∈ strings css, u.IsChain Unopened
  apart : apart none false (lexemes css) = true

theorem stringsOf_bare (p : List (Segment Lexeme)) : stringsOf (bare p) = stringsOf p := by
  induction p with
  | nil => rfl
  | cons x p ih =>
    rcases x with c | ⟨u, _ | _⟩
    · exact ih
    · exact ih
    · exact congrArg (u :: ·) ih

theorem plainChars_bare (p : List (Segment Lexeme)) : plainChars (bare p) = plainChars p := by
  induction p with
  | nil => rfl
  | cons x p ih =>
    rcases x with c | ⟨u, _ | _⟩
    · exact congrArg (c :: ·) ih
    · exact ih
    · exact ih

theorem Harmless.legible {css : List Char} (h : Harmless css) : Legible (bare (lexemes css)) where
  plain c hc := h.plain c (mem_plainChars.2 (List.mem_of_mem_filter hc))
  piece u l hu := by
    obtain ⟨hmem, hnot⟩ := List.mem_filter.1 hu
    cases l with
    | comment => cases hnot
    | string => exact ⟨rfl, quoted_of_mem hmem⟩
  chain := by simpa using isChain_bare h.apart

/-- Compacting keeps the content of a harmless stylesheet: its strings in order, each compacted by
itself, and between them the same names, marks and values of numbers, but for the semicolon at the end
of each block. So the strings stay as they are written if and only if compacting leaves each alone. No
comments are left. -/
theorem content_compact {css : List Char} (h : Harmless css) :
    strings (compact css) = (strings css).map compact ∧
      (strings (compact css) = strings css ↔ ∀ u ∈ strings css, compact u = u) ∧
      content (compact css) = (closeBlocks (content css)).map compactToken ∧
      ∀ x ∈ lexemes (compact css), isComment x = false := by
  have hcomments : replaceAll comment? css = source (bare (lexemes css)) :=
    replaceFrom_comment? (b := none) h.unopened
  have hbare : content css = contentFrom [] (bare (lexemes css)) :=
    contentFrom_bare h.apart fun x _ => rfl
  obtain ⟨r, hr, hsource, hstrings, hcontent⟩ := exists_reduced (s := []) (p := bare (lexemes css))
    h.legible (stringsOf_bare (lexemes css) ▸ h.unopened) (by simpa [plainChars_bare] using h.digits)
  obtain ⟨r', hr', htrim, hstrings', hcontent'⟩ := exists_trim hr
  have hlexemes : lexemes (compact css) = r' := by
    rw [compact_eq_trim, hcomments, ← List.nil_append (source _), ← hsource, ← htrim]
    exact hr'.segmentsFrom_eq none
  have hmap : strings (compact css) = (strings css).map compact := by
    rw [strings, hlexemes, hstrings', hstrings, stringsOf_bare, strings]
  refine ⟨hmap, ?_, ?_, fun x hx => ?_⟩
  · rw [hmap]
    simpa using List.map_inj_left (f := compact) (g := id) (l := strings css)
  · rw [content, hlexemes, hcontent', hcontent, hbare]
  · rw [hlexemes] at hx
    rcases x with c | ⟨u, l⟩
    · rfl
    · rw [(hr'.piece u l hx).1]
      rfl

/-- A stylesheet with comments, a string, zeros and a semicolon before the end of its block. -/
def sampleSheet : List Char :=
  "/* note */ .a::after , .b \x7b content: \"x y\" ; width : 0.50px/**/ ; \x7d".toList

theorem content_compact_sampleSheet : Harmless sampleSheet ∧
    strings (compact sampleSheet) = (strings sampleSheet).map compact ∧
    (strings (compact sampleSheet) = strings sampleSheet ↔ ∀ u ∈ strings sampleSheet, compact u = u) ∧
    content (compact sampleSheet) = (closeBlocks (content sampleSheet)).map compactToken ∧
    ∀ x ∈ lexemes (compact sampleSheet), isComment x = false := by
  have hharmless : Harmless sampleSheet :=
    ⟨by decide +kernel, by unfold PlainDigits; decide +kernel, by decide +kernel, by decide +kernel⟩
  exact ⟨hharmless, content_compact hharmless⟩

end PagePress.Stylesheet
