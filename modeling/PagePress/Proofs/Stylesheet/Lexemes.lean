import PagePress.Proofs.Stylesheet.Tokens

/-!
Comments and quoted strings of a stylesheet, and single characters for all else. A string that is
closed is found whatever follows it (`Quoted.gives`), so a text put together from characters and
strings reads as what it was put together from (`Legible.segmentsFrom_eq`). No pass but the one for
comments goes over a quote (`reduced_append_quote`), and what the others write neither ends a string
nor begins a comment (`Inert`).
-/

namespace PagePress.Stylesheet

open Text Reduce

/-! ### Strings -/

/-- A mark that opens a string and closes it again. -/
def isQuote (c : Char) : Bool := c == '"' || c == '\''

/-- A character that ends a line, and a string with it that is not closed yet. -/
def isNewline (c : Char) : Bool := c == '\n' || c == '\r' || c == '\x0c'

/-- Takes the rest of a string up to the quote that closes it. A backslash takes the next character
with it. -/
def closing? (q : Char) : (s : List Char) → Option (Cut s)
  | [] => none
  | '\\' :: c :: s => (closing? q s).map (Cut.behind ['\\', c] s).andThen
  | c :: s =>
    if c = q then some (Cut.behind [c] s)
    else if isNewline c then none
    else (closing? q s).map (Cut.behind [c] s).andThen

/-- Takes a closed string. -/
def string? : (s : List Char) → Option (Cut s)
  | [] => none
  | q :: s => if isQuote q then (closing? q s).map (Cut.behind [q] s).andThen else none

/-- The inside of a string, which a quote `q` behind it closes; `escaped` tells that a backslash stands
before it. -/
def inside (q : Char) (escaped : Bool) : List Char → Bool
  | [] => !escaped
  | c :: w =>
    if escaped then inside q false w
    else if c = '\\' then inside q true w
    else c != q && !isNewline c && inside q false w

/-- A closed string: its inside between two quotes. -/
def Quoted (u : List Char) : Prop :=
  ∃ q w, isQuote q = true ∧ inside q false w = true ∧ u = q :: (w ++ [q])

theorem string?_of_not_quote {c : Char} (h : isQuote c = false) (s : List Char) :
    string? (c :: s) = none := by
  rw [string?, if_neg (by simp [h])]

theorem closing?_close {q : Char} (hq : q ≠ '\\') (s : List Char) :
    closing? q (q :: s) = some (Cut.behind [q] s) := by
  rw [closing?.eq_3 _ _ _ fun d t h => absurd h hq, if_pos rfl]

theorem closing?_other {q c : Char} (hslash : c ≠ '\\') (hne : c ≠ q) (hline : isNewline c = false)
    (s : List Char) : closing? q (c :: s) = (closing? q s).map (Cut.behind [c] s).andThen := by
  rw [closing?.eq_3 _ _ _ fun d t h => absurd h hslash, if_neg hne, if_neg (by simp [hline])]

theorem isQuote_iff {c : Char} : isQuote c = true ↔ c = '"' ∨ c = '\'' := by
  simp [isQuote]

/-- What is taken up to the quote that closes a string is the inside of it. -/
theorem exists_of_closing? {q : Char} {s : List Char} {k : Cut s} (h : closing? q s = some k) :
    ∃ w, k.text = w ++ [q] ∧ inside q false w = true := by
  fun_induction closing? q s with
  | case1 => cases h
  | case2 c s ih =>
    obtain ⟨k, hk, rfl⟩ := Option.map_eq_some_iff.1 h
    obtain ⟨w, htext, hw⟩ := ih hk
    exact ⟨'\\' :: c :: w, by simp [htext], by simpa [inside] using hw⟩
  | case3 s hescape =>
    obtain rfl := Option.some.inj h
    exact ⟨[], rfl, rfl⟩
  | case4 => cases h
  | case5 c s hescape hne hline ih =>
    obtain ⟨k, hk, rfl⟩ := Option.map_eq_some_iff.1 h
    obtain ⟨w, htext, hw⟩ := ih hk
    -- the text goes on, and a backslash would have taken its next character
    have hslash : c ≠ '\\' := by
      rintro rfl
      obtain ⟨d, t, rfl⟩ : ∃ d t, s = d :: t := List.exists_cons_of_ne_nil (by rintro rfl; cases hk)
      exact hescape d t rfl rfl
    exact ⟨c :: w, by simp [htext], by simp [inside, hslash, hne, hline, hw]⟩

/-- The quote behind the inside of a string closes it, whatever follows. -/
theorem closing?_gives {q : Char} (hq : q ≠ '\\') {w : List Char} (hw : inside q false w = true)
    (v : List Char) : Cut.Gives (closing? q (w ++ q :: v)) (w ++ [q]) v := by
  induction hn : w.length using Nat.strongRecOn generalizing w with
  | _ n ih =>
    cases w with
    | nil => exact ⟨_, closing?_close hq v, rfl, rfl⟩
    | cons c w =>
      simp only [List.length_cons] at hn
      by_cases hslash : c = '\\'
      · subst hslash
        cases w with
        | nil => cases hw
        | cons d w =>
          simp only [List.length_cons] at hn
          exact (ih w.length (by omega) (by simpa [inside] using hw) rfl).andThen (Cut.behind ['\\', d] _)
      · simp only [inside, hslash, Bool.false_eq_true, if_false, Bool.and_eq_true, bne_iff_ne,
          Bool.not_eq_true'] at hw
        have hother := closing?_other hslash hw.1.1 hw.1.2 (w ++ q :: v)
        exact hother ▸ (ih w.length (by omega) hw.2 rfl).andThen (Cut.behind [c] _)

theorem quoted_of_string? {s : List Char} {k : Cut s} (h : string? s = some k) : Quoted k.text := by
  cases s with
  | nil => cases h
  | cons q s =>
    by_cases hq : isQuote q = true
    · rw [string?, if_pos hq] at h
      obtain ⟨k, hk, rfl⟩ := Option.map_eq_some_iff.1 h
      obtain ⟨w, htext, hw⟩ := exists_of_closing? hk
      exact ⟨q, w, hq, hw, by simp [htext]⟩
    · rw [string?_of_not_quote (by simpa using hq)] at h
      cases h

/-- A closed string is taken whatever follows. -/
theorem Quoted.gives {u : List Char} (h : Quoted u) (v : List Char) :
    Cut.Gives (string? (u ++ v)) u v := by
  obtain ⟨q, w, hq, hw, rfl⟩ := h
  have hslash : q ≠ '\\' := by rcases isQuote_iff.1 hq with rfl | rfl <;> decide
  have hstring : ∀ t, string? (q :: t) = (closing? q t).map (Cut.behind [q] t).andThen :=
    fun t => by rw [string?, if_pos hq]
  rw [List.cons_append, List.append_assoc, List.singleton_append, hstring]
  exact (closing?_gives hslash hw v).andThen (Cut.behind [q] _)

theorem Quoted.exists_cons {u : List Char} (h : Quoted u) : ∃ q w, isQuote q = true ∧ u = q :: w := by
  obtain ⟨q, w, hq, -, rfl⟩ := h
  exact ⟨q, w ++ [q], hq, rfl⟩

theorem Quoted.ne_nil {u : List Char} (h : Quoted u) : u ≠ [] := by
  obtain ⟨q, w, -, rfl⟩ := h.exists_cons
  simp

/-! ### Lexemes -/

/-- What a scan sets apart in a stylesheet. -/
inductive Lexeme where
  | comment
  | string
deriving DecidableEq

/-- Recognises a comment or a closed string. -/
def lexeme? : Recognizer Lexeme := fun b s =>
  match comment? b s with
  | some (_, k) => some (.comment, k)
  | none => (string? s).map fun k => (.string, k)

/-- The comments and strings of a stylesheet, and the characters around them. -/
def lexemes (css : List Char) : List (Segment Lexeme) := segments lexeme? css

/-- The text that some segments make up. -/
def source (p : List (Segment Lexeme)) : List Char := p.flatMap Segment.source

@[simp] theorem source_nil : source [] = [] := rfl

@[simp] theorem source_plain (c : Char) (p : List (Segment Lexeme)) :
    source (.plain c :: p) = c :: source p := rfl

@[simp] theorem source_piece (u : List Char) (l : Lexeme) (p : List (Segment Lexeme)) :
    source (.piece u l :: p) = u ++ source p := rfl

@[simp] theorem source_append (p p' : List (Segment Lexeme)) : source (p ++ p') = source p ++ source p' :=
  List.flatMap_append

@[simp] theorem source_map_plain (s : List Char) : source (s.map .plain) = s := by
  induction s with
  | nil => rfl
  | cons c s ih => rw [List.map_cons, source_plain, ih]

/-- A slash is not followed by an asterisk, so no comment begins here. -/
def Unopened (a b : Char) : Prop := a = '/' → b ≠ '*'

instance : DecidableRel Unopened := fun a b => inferInstanceAs (Decidable (a = '/' → b ≠ '*'))

theorem contextFree_comment : ContextFree comment? := fun _ _ => rfl

theorem comment?_eq_none {c : Char} {s : List Char} (h : ∀ d ∈ s.head?, Unopened c d) :
    comment? none (c :: s) = none := by
  have hnone : Cut.word? "/*" (c :: s) = none := by
    by_cases hc : c = '/'
    · subst hc
      cases s with
      | nil => rfl
      | cons d s => simp [Cut.word?, Cut.wordBy?, Ne.symm (h d rfl rfl)]
    · exact Cut.wordBy?_neg (a := '/') (beq_false_of_ne (Ne.symm hc)) ['*'] s
  simp only [comment?, hnone, Option.bind_eq_bind, Option.bind_none]

/-- A text without the opening of a comment is passed over, unless it ends in the first half of it. -/
theorem passes_comment {u : List Char} (hu : u.IsChain Unopened) (hlast : ∀ c ∈ u.getLast?, c ≠ '/') :
    Passes comment? u := by
  induction u with
  | nil => exact passes_nil
  | cons c u ih =>
    have hchain := List.isChain_cons.1 hu
    refine passes_cons contextFree_comment (fun v => comment?_eq_none ?_) (ih hchain.2 ?_)
    · cases u with
      | nil => exact fun d _ hc => absurd hc (hlast c rfl)
      | cons d u => exact hchain.1
    · cases u with
      | nil => simp
      | cons d u => simpa using hlast

/-- So is a string without the opening of a comment. -/
theorem Quoted.passes_comment {u : List Char} (h : Quoted u) (hu : u.IsChain Unopened) :
    Passes comment? u := by
  obtain ⟨q, w, hq, -, hends⟩ := h
  refine Stylesheet.passes_comment hu fun c hc => ?_
  rw [hends, ← List.cons_append, List.getLast?_concat] at hc
  obtain rfl : q = c := by simpa using hc
  rcases isQuote_iff.1 hq with rfl | rfl <;> decide

theorem comment?_eq_some {b : Option Char} {s a : List Char} {k : Cut s} (h : comment? b s = some (a, k)) :
    a = [] := by
  simp only [comment?, Option.bind_eq_bind, Option.bind_eq_some_iff, Option.pure_def,
    Option.some.injEq, Prod.mk.injEq] at h
  obtain ⟨_, _, _, _, _, _, rfl, _⟩ := h
  rfl

theorem lexeme?_eq_none {b : Option Char} {s : List Char} (hcomment : comment? none s = none)
    (hstring : string? s = none) : lexeme? b s = none := by
  rw [lexeme?, contextFree_comment, hcomment, hstring]
  rfl

/-- A lexeme is a comment or a closed string. -/
theorem lexeme?_eq_some {b : Option Char} {s : List Char} {l : Lexeme} {k : Cut s}
    (h : lexeme? b s = some (l, k)) :
    (l = .comment ∧ comment? b s = some ([], k)) ∨ (l = .string ∧ Quoted k.text) := by
  unfold lexeme? at h
  split at h
  · rename_i a k' hcomment
    obtain ⟨rfl, rfl⟩ := Prod.mk.inj (Option.some.inj h)
    exact .inl ⟨rfl, by rw [hcomment, comment?_eq_some hcomment]⟩
  · obtain ⟨k', hstring, h⟩ := Option.map_eq_some_iff.1 h
    obtain ⟨rfl, rfl⟩ := Prod.mk.inj h
    exact .inr ⟨rfl, quoted_of_string? hstring⟩

/-- What is set apart as a string is a closed string. -/
theorem quoted_of_mem {css u : List Char} (h : .piece u .string ∈ lexemes css) : Quoted u := by
  unfold lexemes segments at h
  generalize none = b at h
  fun_induction segmentsFrom lexeme? b css with
  | case1 => cases h
  | case2 b c s _ ih => exact ih (by simpa using h)
  | case3 b c s l k _ _ ih => exact ih (by simpa using h)
  | case4 b c s l k hk _ _ ih =>
    rcases List.mem_cons.1 h with h | h
    · obtain ⟨rfl, rfl⟩ := Segment.piece.inj h
      exact ((lexeme?_eq_some hk).resolve_left (by simp)).2
    · exact ih h

/-! ### Legible segments -/

/-- No comment begins with two characters side by side. -/
def NoOpening (a b : Segment Lexeme) : Prop := a = .plain '/' → b ≠ .plain '*'

/-- No quote stands by itself, no comment begins and all strings are closed. -/
structure Legible (p : List (Segment Lexeme)) : Prop where
  plain : ∀ c, .plain c ∈ p → isQuote c = false
  piece : ∀ u l, .piece u l ∈ p → l = .string ∧ Quoted u
  chain : p.IsChain NoOpening

theorem Legible.of_isInfix {p p' : List (Segment Lexeme)} (h : Legible p) (hp : p' <:+: p) : Legible p' :=
  ⟨fun c hc => h.plain c (hp.subset hc), fun u l hu => h.piece u l (hp.subset hu), h.chain.infix hp⟩

theorem Legible.tail {x : Segment Lexeme} {p : List (Segment Lexeme)} (h : Legible (x :: p)) : Legible p :=
  h.of_isInfix (List.suffix_cons x p).isInfix

theorem legible_map_plain {s : List Char} :
    Legible (s.map .plain) ↔ (∀ c ∈ s, isQuote c = false) ∧ s.IsChain Unopened := by
  have hchain : (s.map Segment.plain).IsChain NoOpening ↔ s.IsChain Unopened := by
    rw [List.isChain_map]
    exact ⟨fun h => h.imp fun a b hab ha hb => hab (by rw [ha]) (by rw [hb]),
      fun h => h.imp fun a b hab ha hb => hab (Segment.plain.inj ha) (Segment.plain.inj hb)⟩
  constructor
  · exact fun h => ⟨fun c hc => h.plain c (List.mem_map_of_mem hc), hchain.1 h.chain⟩
  · exact fun h => ⟨by simpa using h.1, by simp, hchain.2 h.2⟩

/-- A string goes between any segments. -/
theorem Legible.append_string {p p' : List (Segment Lexeme)} (hp : Legible p) {u : List Char}
    (hu : Quoted u) (hp' : Legible p') : Legible (p ++ .piece u .string :: p') where
  plain c hc := by
    have hc : .plain c ∈ p ∨ .plain c ∈ p' := by simpa using hc
    exact hc.elim (hp.plain c) (hp'.plain c)
  piece v l hv := by
    have hv : .piece v l ∈ p ∨ (v = u ∧ l = .string) ∨ .piece v l ∈ p' := by simpa using hv
    rcases hv with hv | ⟨rfl, rfl⟩ | hv
    · exact hp.piece v l hv
    · exact ⟨rfl, hu⟩
    · exact hp'.piece v l hv
  chain := by
    refine hp.chain.append (hp'.chain.cons fun _ _ hslash => ?_) fun _ _ y hy _ => ?_
    · cases hslash
    · obtain rfl : .piece u .string = y := by simpa using hy
      simp

theorem Legible.unopened {c : Char} {p : List (Segment Lexeme)} (h : Legible (.plain c :: p)) :
    ∀ d ∈ (source p).head?, Unopened c d := by
  rintro d hd rfl
  have hchain := h.chain
  cases p with
  | nil => cases hd
  | cons x p =>
    cases x with
    | plain e =>
      obtain rfl : e = d := by simpa using hd
      rintro rfl
      exact hchain.rel rfl rfl
    | piece u l =>
      obtain ⟨q, w, hq, rfl⟩ := (h.piece u l (by simp)).2.exists_cons
      obtain rfl : q = d := by simpa using hd
      rcases isQuote_iff.1 hq with rfl | rfl <;> decide

/-- A closed string is a lexeme whatever follows. -/
theorem Quoted.exists_lexeme {u : List Char} (h : Quoted u) (b : Option Char) (v : List Char) :
    ∃ k : Cut (u ++ v), lexeme? b (u ++ v) = some (.string, k) ∧ k.text = u := by
  obtain ⟨k, hk, htext, -⟩ := h.gives v
  obtain ⟨q, w, hq, hcons⟩ := h.exists_cons
  have hcomment : comment? none (u ++ v) = none := by
    rw [hcons]
    refine comment?_eq_none fun d _ hslash => ?_
    rcases isQuote_iff.1 hq with rfl | rfl <;> cases hslash
  refine ⟨k, ?_, htext⟩
  rw [lexeme?, contextFree_comment, hcomment, hk]
  rfl

/-- Segments that are legible are what a scan of their text finds. -/
theorem Legible.segmentsFrom_eq {p : List (Segment Lexeme)} (h : Legible p) (b : Option Char) :
    segmentsFrom lexeme? b (source p) = p := by
  induction p generalizing b with
  | nil => simp
  | cons x p ih =>
    have ih := ih h.tail
    cases x with
    | plain c =>
      have hnone : lexeme? b (c :: source p) = none :=
        lexeme?_eq_none (comment?_eq_none h.unopened) (string?_of_not_quote (h.plain c (by simp)) _)
      rw [source_plain, segmentsFrom_of_none hnone, ih]
    | piece u l =>
      obtain ⟨rfl, hu⟩ := h.piece u l (by simp)
      obtain ⟨k, hk, htext⟩ := hu.exists_lexeme b (source p)
      rw [source_piece, segmentsFrom_of_some hu.ne_nil hk htext, ih]

/-! ### Across a quote -/

/-- Of the character before a text, it matters only whether zeros could continue it. -/
theorem replaceFrom_leadingZeros_congr {b b' : Option Char} (h : b.any continues = b'.any continues)
    (s : List Char) : replaceFrom leadingZeros? b s = replaceFrom leadingZeros? b' s := by
  cases s with
  | nil => simp
  | cons c s =>
    have hc : leadingZeros? b (c :: s) = leadingZeros? b' (c :: s) := by rw [leadingZeros?, h, leadingZeros?]
    cases hk : leadingZeros? b' (c :: s) with
    | none => rw [replaceFrom_of_none (hc.trans hk), replaceFrom_of_none hk]
    | some x =>
      obtain ⟨a, k⟩ := x
      obtain ⟨-, zs, d, ds, htext, -⟩ := leadingZeros?_eq_some hk
      rw [replaceFrom_of_some (by simp) (hc.trans hk) htext, replaceFrom_of_some (by simp) hk htext,
        List.getLast?_eq_some_getLast (by simp), Option.some_or, Option.some_or]

section

variable {q : Char} (hq : isQuote q = true)
include hq

theorem not_blank_of_isQuote : isBlank q = false := by
  rcases isQuote_iff.1 hq with rfl | rfl <;> decide

theorem continues_of_isQuote : continues q = false := by
  rcases isQuote_iff.1 hq with rfl | rfl <;> decide

theorem punctuation?_extend (s t : List Char) :
    punctuation? none (s ++ q :: t) = (punctuation? none s).map fun x => (x.1, x.2.extend (q :: t)) := by
  have hblank := not_blank_of_isQuote hq
  have hmark : isPunctuation q = false := by rcases isQuote_iff.1 hq with rfl | rfl <;> decide
  have hspan : ∀ u, Cut.span isBlank (u ++ q :: t) = (Cut.span isBlank u).extend (q :: t) :=
    fun u => Cut.span_extend hblank u t
  suffices h : ∀ left, left = (Cut.span isBlank s).extend (q :: t) →
      ((Cut.char? isPunctuation left.rest).bind fun mark =>
        some (mark.text, (left.andThen mark).andThen (Cut.span isBlank mark.rest))) =
        (punctuation? none s).map fun x => (x.1, x.2.extend (q :: t)) from h _ (hspan s)
  rintro _ rfl
  refine Cut.bind_extend (Cut.char?_extend hmark (Cut.span isBlank s).rest t) fun k => ?_
  rw [show Cut.span isBlank (k.extend (q :: t)).rest = (Cut.span isBlank k.rest).extend (q :: t) from
    hspan k.rest]
  rfl

theorem colon?_extend (s t : List Char) :
    colon? none (s ++ q :: t) = (colon? none s).map fun x => (x.1, x.2.extend (q :: t)) := by
  have hmark : (q == ':') = false := by rcases isQuote_iff.1 hq with rfl | rfl <;> decide
  refine Cut.bind_extend (Cut.char?_extend (p := (· == ':')) hmark s t) fun k => ?_
  exact Cut.bind_extend (Cut.spanSome?_extend (not_blank_of_isQuote hq) k.rest t) fun k' => rfl

theorem lastSemicolon?_extend (s t : List Char) :
    lastSemicolon? none (s ++ q :: t) =
      (lastSemicolon? none s).map fun x => (x.1, x.2.extend (q :: t)) := by
  have hword : ∀ a ∈ ";\x7d".toList, (a == q) = false := by
    rcases isQuote_iff.1 hq with rfl | rfl <;> decide
  have hextend : Cut.word? ";\x7d" (s ++ q :: t) = (Cut.word? ";\x7d" s).map (Cut.extend · (q :: t)) :=
    Cut.wordBy?_extend hword s t
  rw [lastSemicolon?, lastSemicolon?, hextend]
  cases Cut.word? ";\x7d" s <;> rfl

theorem leadingZeros?_extend (b : Option Char) (s t : List Char) :
    leadingZeros? b (s ++ q :: t) = (leadingZeros? b s).map fun x => (x.1, x.2.extend (q :: t)) := by
  have hfacts : (q == '0') = false ∧ (q == '.') = false ∧ isDigit q = false := by
    rcases isQuote_iff.1 hq with rfl | rfl <;> decide
  unfold leadingZeros?
  split
  · rfl
  · refine Cut.bind_extend (Cut.spanSome?_extend (p := (· == '0')) hfacts.1 s t) fun k1 => ?_
    refine Cut.bind_extend (Cut.char?_extend (p := (· == '.')) hfacts.2.1 k1.rest t) fun k2 => ?_
    exact Cut.bind_extend (Cut.spanSome?_extend hfacts.2.2 k2.rest t) fun k3 => rfl

/-- What is behind a quote is compacted by itself. -/
theorem reduced_append_quote (s t : List Char) : reduced (s ++ q :: t) = reduced s ++ q :: reduced t := by
  have hblank := not_blank_of_isQuote hq
  have hcontinues := continues_of_isQuote hq
  have hfacts : q ≠ ':' ∧ q ≠ ';' ∧ q ≠ '0' ∧ isPunctuation q = false := by
    rcases isQuote_iff.1 hq with rfl | rfl <;> decide
  have hpunctuation : ∀ s t, replaceAll punctuation? (s ++ q :: t) =
      replaceAll punctuation? s ++ q :: replaceAll punctuation? t := fun s t => by
    rw [replaceAll_append_of_extend contextFree_punctuation fun u _ => punctuation?_extend hq u t,
      replaceAll_punctuation?_other (by rw [List.dropWhile_cons_of_neg (by simp [hblank])]; simp [hfacts])]
  have hcolon : ∀ s t, replaceAll colon? (s ++ q :: t) = replaceAll colon? s ++ q :: replaceAll colon? t :=
    fun s t => by
      rw [replaceAll_append_of_extend contextFree_colon fun u _ => colon?_extend hq u t,
        replaceAll_colon?_other hfacts.1]
  have hsemicolon : ∀ s t, replaceAll lastSemicolon? (s ++ q :: t) =
      replaceAll lastSemicolon? s ++ q :: replaceAll lastSemicolon? t := fun s t => by
    rw [replaceAll_append_of_extend contextFree_lastSemicolon fun u _ => lastSemicolon?_extend hq u t,
      replaceAll_lastSemicolon?_other fun h => absurd h hfacts.2.1]
  have hzeros : ∀ s t, replaceAll leadingZeros? (s ++ q :: t) =
      replaceAll leadingZeros? s ++ q :: replaceAll leadingZeros? t := fun s t => by
    have hbehind : replaceFrom leadingZeros? (some q) t = replaceFrom leadingZeros? none t :=
      replaceFrom_leadingZeros_congr (by simp [hcontinues]) t
    refine (replaceFrom_append_of_extend (fun b u _ => leadingZeros?_extend hq b u t) none).trans ?_
    rw [replaceFrom_of_none (leadingZeros?_of_ne hfacts.2.2.1 _ _), hbehind]
    rfl
  rw [reduced, collapse_append hblank, collapse_cons_of_not_blank hblank, hpunctuation, hcolon,
    hsemicolon, hzeros]
  rfl

end

/-! ### Within strings and between them -/

/-- The characters that open or close a string, end a line, or begin an escape or a comment. -/
def marks : List Char := ['/', '*', '\\', '"', '\'', '\n', '\r', '\x0c']

def isInert (c : Char) : Bool := !marks.contains c

theorem isInert_of_isLoose {c : Char} (h : isLoose c = true) : isInert c = true := by
  have hall : ∀ d ∈ marks, isLoose d = false := by decide
  rw [isInert, Bool.not_eq_true']
  by_contra hmark
  have hmem : c ∈ marks := by simpa using hmark
  exact absurd h (by simp [hall c hmem])

/-- A pass that leaves loose characters, which are inert, in the place of what it takes, which holds no
escape. -/
structure Inert (r : Recognizer (List Char)) : Prop where
  loosens : Loosens r
  noEscape : ∀ {b t a} {k : Cut t}, r b t = some (a, k) → '\\' ∉ k.text

theorem Inert.ne_nil {r : Recognizer (List Char)} (hr : Inert r) {b : Option Char} {t a : List Char}
    {k : Cut t} (h : r b t = some (a, k)) : a ≠ [] := (hr.loosens h).1

theorem Inert.inert {r : Recognizer (List Char)} (hr : Inert r) {b : Option Char} {t a : List Char}
    {k : Cut t} (h : r b t = some (a, k)) : ∀ c ∈ a, isInert c = true :=
  fun c hc => isInert_of_isLoose ((hr.loosens h).2 c hc)

theorem ne_of_isInert {c d : Char} (h : isInert c = true) (hd : d ∈ marks) : c ≠ d := by
  rintro rfl
  rw [isInert, List.contains_iff_mem.2 hd] at h
  cases h

theorem inside_cons_of_isInert {q c : Char} (hq : isQuote q = true) (hc : isInert c = true)
    {e : Bool} {w : List Char} (hw : inside q false w = true) : inside q e (c :: w) = true := by
  have hslash : c ≠ '\\' := ne_of_isInert hc (by decide)
  have hquote : c ≠ q := by
    rcases isQuote_iff.1 hq with rfl | rfl <;> exact ne_of_isInert hc (by decide)
  have hline : isNewline c = false := by
    have h1 : c ≠ '\n' := ne_of_isInert hc (by decide)
    have h2 : c ≠ '\r' := ne_of_isInert hc (by decide)
    have h3 : c ≠ '\x0c' := ne_of_isInert hc (by decide)
    simp [isNewline, h1, h2, h3]
  cases e <;> simp [inside, hslash, hquote, hline, hw]

/-- Behind inert characters, the first of which may be escaped, the inside of a string goes on. -/
theorem inside_append_of_isInert {q : Char} (hq : isQuote q = true) {a : List Char} (ha : a ≠ [])
    (h : ∀ c ∈ a, isInert c = true) {e : Bool} {w : List Char} (hw : inside q false w = true) :
    inside q e (a ++ w) = true := by
  induction a generalizing e with
  | nil => exact absurd rfl ha
  | cons c a ih =>
    refine inside_cons_of_isInert hq (h c (by simp)) ?_
    by_cases ha : a = []
    · rw [ha]
      exact hw
    · exact ih ha fun d hd => h d (by simp [hd])

theorem inside_of_cons {q c : Char} (hc : c ≠ '\\') {e : Bool} {w : List Char}
    (hw : inside q e (c :: w) = true) : inside q false w = true := by
  cases e with
  | true => simpa [inside] using hw
  | false =>
    simp only [inside, hc, Bool.false_eq_true, if_false, Bool.and_eq_true] at hw
    exact hw.2

/-- What follows characters without a backslash is not escaped. -/
theorem inside_of_append {q : Char} {u : List Char} (hu : u ≠ []) (h : '\\' ∉ u) {e : Bool}
    {w : List Char} (hw : inside q e (u ++ w) = true) : inside q false w = true := by
  induction u generalizing e with
  | nil => exact absurd rfl hu
  | cons c u ih =>
    rw [List.mem_cons, not_or] at h
    have hrest := inside_of_cons (Ne.symm h.1) hw
    by_cases hu : u = []
    · simpa [hu] using hrest
    · exact ih hu h.2 hrest

theorem inside_cons_congr {q : Char} {w w' : List Char}
    (h : ∀ e, inside q e w = true → inside q e w' = true) {e : Bool} {c : Char}
    (hw : inside q e (c :: w) = true) : inside q e (c :: w') = true := by
  cases e with
  | true => exact h false hw
  | false =>
    by_cases hslash : c = '\\'
    · simp only [inside, hslash, Bool.false_eq_true, if_false, if_true] at hw ⊢
      exact h true hw
    · simp only [inside, hslash, Bool.false_eq_true, if_false, Bool.and_eq_true] at hw ⊢
      exact ⟨hw.1, h false hw.2⟩

/-- The inside of a string stays the inside of one. -/
theorem Inert.inside {r : Recognizer (List Char)} (hr : Inert r) {q : Char} (hq : isQuote q = true)
    {w : List Char} (hw : inside q false w = true) : inside q false (replaceAll r w) = true := by
  unfold replaceAll segments
  generalize none = b, false = e at *
  fun_induction segmentsFrom r b w generalizing e with
  | case1 => exact hw
  | case2 b c s _ ih => exact inside_cons_congr (fun e h => ih e h) hw
  | case3 b c s a k _ _ ih => exact inside_cons_congr (fun e h => ih e h) hw
  | case4 b c s a k hk hne _ ih =>
    rw [← k.append_eq] at hw
    exact inside_append_of_isInert hq (hr.ne_nil hk) (hr.inert hk)
      (ih false (inside_of_append hne (hr.noEscape hk) hw))

/-- What holds side by side still does when each replacement goes with any character. -/
theorem isChain_replaceFrom {r : Recognizer (List Char)} {R : Char → Char → Prop}
    (hr : ∀ b t a (k : Cut t), r b t = some (a, k) → a ≠ [] ∧ ∀ c ∈ a, ∀ d, R c d ∧ R d c)
    {b : Option Char} {s : List Char} {x : Char} (h : (x :: s).IsChain R) :
    (x :: replaceFrom r b s).IsChain R := by
  have hjoin : ∀ {a t : List Char} {x : Char}, a ≠ [] → (∀ c ∈ a, ∀ d, R c d ∧ R d c) →
      (∀ c ∈ a, (c :: t).IsChain R) → (x :: (a ++ t)).IsChain R := by
    intro a t x ha hR ht
    induction a generalizing x with
    | nil => exact absurd rfl ha
    | cons c a ih =>
      refine List.isChain_cons_cons.2 ⟨(hR c (by simp) x).2, ?_⟩
      by_cases ha : a = []
      · subst ha
        exact ht c (by simp)
      · exact ih ha (fun d hd => hR d (by simp [hd])) fun d hd => ht d (by simp [hd])
  unfold replaceFrom
  fun_induction segmentsFrom r b s generalizing x with
  | case1 => exact h
  | case2 b c s _ ih => exact List.isChain_cons_cons.2 ⟨h.rel, ih h.tail⟩
  | case3 b c s a k _ _ ih => exact List.isChain_cons_cons.2 ⟨h.rel, ih h.tail⟩
  | case4 b c s a k hk _ _ ih =>
    obtain ⟨ha, hR⟩ := hr _ _ _ _ hk
    refine hjoin ha hR fun d hd => ih ?_
    exact (h.tail.suffix k.rest_suffix).cons fun e _ => (hR d hd e).1

/-- No comment begins that did not begin before. -/
theorem Inert.isChain {r : Recognizer (List Char)} (hr : Inert r) {s : List Char}
    (h : s.IsChain Unopened) : (replaceAll r s).IsChain Unopened := by
  have hunopened : ∀ b t a (k : Cut t), r b t = some (a, k) →
      a ≠ [] ∧ ∀ c ∈ a, ∀ d, Unopened c d ∧ Unopened d c := by
    intro b t a k hk
    have hinert := hr.inert hk
    refine ⟨hr.ne_nil hk, fun c hc d => ⟨fun hslash => ?_, fun _ => ?_⟩⟩
    · exact absurd hslash (ne_of_isInert (hinert c hc) (by decide))
    · exact ne_of_isInert (hinert c hc) (by decide)
  exact (isChain_replaceFrom hunopened (x := ' ') (h.cons fun _ _ h => absurd h (by decide))).tail

/-- No quotes come in. -/
theorem Inert.forall_not_quote {r : Recognizer (List Char)} (hr : Inert r) {s : List Char}
    (h : ∀ c ∈ s, isQuote c = false) : ∀ c ∈ replaceAll r s, isQuote c = false := by
  intro c hc
  rcases mem_replaceAll (p := fun c => isInert c = true)
    (fun b t a k hk d hd => .inr (hr.inert hk d hd)) hc with hc | hc
  · exact h c hc
  · have h1 : c ≠ '"' := ne_of_isInert hc (by decide)
    have h2 : c ≠ '\'' := ne_of_isInert hc (by decide)
    simp [isQuote, h1, h2]

theorem not_mem_of_blanks {s : List Char} (h : ∀ c ∈ s, isBlank c = true) : '\\' ∉ s :=
  fun hslash => absurd (h _ hslash) (by decide)

theorem inert_blanks : Inert blanks? := by
  refine ⟨loosens_blanks, fun hk => ?_⟩
  obtain ⟨k', hspan, h⟩ := Option.map_eq_some_iff.1 hk
  obtain ⟨-, rfl⟩ := Prod.mk.inj h
  obtain ⟨c, u, htext, hblank⟩ := Cut.spanSome?_eq_some hspan
  exact htext ▸ not_mem_of_blanks hblank

theorem inert_punctuation : Inert punctuation? := by
  refine ⟨loosens_punctuation, @fun b t a k hk => ?_⟩
  simp only [punctuation?, Option.bind_eq_bind, Option.bind_eq_some_iff, Option.pure_def,
    Option.some.injEq, Prod.mk.injEq] at hk
  obtain ⟨mark, hmark, -, rfl⟩ := hk
  obtain ⟨c, hc, htext⟩ := Cut.text_of_char? hmark
  have hmark : ∀ c ∈ ['{', '}', ';', ',', '>'], '\\' ≠ c := by decide
  have hspan : ∀ s : List Char, '\\' ∉ s.takeWhile isBlank := fun s =>
    not_mem_of_blanks fun d hd => List.mem_takeWhile_imp hd
  show '\\' ∉ t.takeWhile isBlank ++ mark.text ++ mark.rest.takeWhile isBlank
  rw [htext]
  simp [hspan, hmark c (List.contains_iff_mem.1 hc)]

theorem inert_colon : Inert colon? := by
  refine ⟨loosens_colon, fun hk => ?_⟩
  simp only [colon?, Option.bind_eq_bind, Option.bind_eq_some_iff, Option.pure_def,
    Option.some.injEq, Prod.mk.injEq] at hk
  obtain ⟨mark, hmark, space, hspace, -, rfl⟩ := hk
  have htext := Cut.text_of_char?_beq hmark
  obtain ⟨d, u, hspan, hblank⟩ := Cut.spanSome?_eq_some hspace
  rw [Cut.andThen_text, htext, hspan]
  exact fun h => (List.mem_cons.1 h).elim (by decide) (not_mem_of_blanks hblank)

theorem inert_lastSemicolon : Inert lastSemicolon? := by
  refine ⟨loosens_lastSemicolon, fun hk => ?_⟩
  obtain ⟨k', hword, h⟩ := Option.map_eq_some_iff.1 hk
  obtain ⟨-, rfl⟩ := Prod.mk.inj h
  rw [Cut.text_of_word? hword]
  decide

theorem inert_leadingZeros : Inert leadingZeros? := by
  refine ⟨loosens_leadingZeros, fun hk h => ?_⟩
  have hinert := loosens_leadingZeros hk
  obtain ⟨-, zs, d, ds, htext, hzeros, -, rfl⟩ := leadingZeros?_eq_some hk
  rw [htext] at h
  rcases List.mem_append.1 h with h | h
  · have hzeros : ∀ z ∈ '0' :: zs, z = '0' := by simpa using hzeros
    exact absurd (hzeros _ h) (by decide)
  · exact absurd (hinert.2 _ h) (by decide)

/-- What each inert pass keeps is kept. -/
theorem reduced_of_inert {P : List Char → Prop} (h : ∀ r, Inert r → ∀ s, P s → P (replaceAll r s))
    {s : List Char} (hs : P s) : P (reduced s) := by
  have hcollapse : P (collapse s) := replaceAll_blanks? s ▸ h _ inert_blanks s hs
  exact h _ inert_leadingZeros _ (h _ inert_lastSemicolon _ (h _ inert_colon _
    (h _ inert_punctuation _ hcollapse)))

end PagePress.Stylesheet
