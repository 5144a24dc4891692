import Mathlib.Data.List.Chain
import PagePress.Proofs.Stylesheet.Page
import PagePress.Proofs.Stylesheet.Zeros

/-!
Compacting a compact stylesheet changes nothing. Each pass of `compact` says more about which
characters may stand side by side: no two blanks (`Squeezed`), no blank beside punctuation
(`Tight`), none after a colon (`Joined`), and no semicolon at the end of a block (`Dense`). Each
leaves alone a text in which this holds already, so a dense text without zeros to drop is compact
(`compact_compact`). A block that ends in two semicolons would lose one of them each time; a
stylesheet in which no two follow each other is `Settled`.
-/

namespace PagePress.Stylesheet

open Text Reduce

/-! ### Side by side -/

/-- Punctuation has no blank beside it. -/
structure Tight (a b : Char) : Prop where
  squeezed : Squeezed a b
  ahead : isBlank a = true → isPunctuation b = false
  behind : isPunctuation a = true → isBlank b = false

/-- A colon is followed by no blank. -/
structure Joined (a b : Char) : Prop extends Tight a b where
  colon : a = ':' → isBlank b = false

/-- A block does not end in a semicolon. -/
structure Dense (a b : Char) : Prop extends Joined a b where
  last : a = ';' → b ≠ '\x7d'

theorem isBlank_of_isPunctuation {c : Char} (h : isPunctuation c = true) : isBlank c = false := by
  have h : c ∈ ['{', '}', ';', ',', '>'] := List.contains_iff_mem.1 h
  simp only [List.mem_cons, List.not_mem_nil, or_false] at h
  rcases h with rfl | rfl | rfl | rfl | rfl <;> decide

/-- No semicolon begins the text or follows a semicolon, white space aside. -/
def Settled (s : List Char) : Prop :=
  (';' :: s.filter fun c => !isBlank c).IsChain fun a b => a = ';' → b ≠ ';'

theorem Settled.append {s t : List Char} (hs : Settled s) (ht : Settled t) : Settled (s ++ t) := by
  unfold Settled at *
  rw [List.filter_append, ← List.cons_append]
  refine hs.append ht.tail fun x _ y hy hx => ?_
  exact ht.rel_head? hy rfl

theorem isChain_cons_of_forall {s : List Char} (h : ∀ c ∈ s, c ≠ ';') (a : Char) :
    (a :: s).IsChain fun a b => a = ';' → b ≠ ';' := by
  induction s generalizing a with
  | nil => exact .singleton a
  | cons c s ih =>
    exact List.isChain_cons_cons.2 ⟨fun _ => h c (by simp), ih (fun d hd => h d (by simp [hd])) c⟩

/-- A text without semicolons is settled. -/
theorem settled_of_forall {s : List Char} (h : ∀ c ∈ s, c ≠ ';') : Settled s :=
  isChain_cons_of_forall (fun c hc => h c (List.mem_of_mem_filter hc)) ';'

/-- So is a text that ends in its only semicolon, behind another character. -/
theorem settled_concat {s : List Char} (h : ∀ c ∈ s, c ≠ ';')
    (hne : (s.filter fun c => !isBlank c) ≠ []) : Settled (s ++ [';']) := by
  have hsemicolon : ([';'].filter fun c => !isBlank c) = [';'] := by decide
  rw [Settled, List.filter_append, hsemicolon, ← List.cons_append]
  refine List.IsChain.append (settled_of_forall h) (.singleton _) fun a ha _ _ hsemi => ?_
  rw [List.getLast?_cons_of_ne_nil hne] at ha
  exact absurd hsemi (h a (List.mem_of_mem_filter (List.mem_of_getLast? ha)))

theorem settled_of_filter {s t : List Char}
    (h : (t.filter fun c => !isBlank c) = s.filter fun c => !isBlank c) (hs : Settled s) :
    Settled t := by
  rw [Settled, h]
  exact hs

/-- No two semicolons stand side by side in a settled text. -/
theorem Settled.isChain {s : List Char} (h : Settled s) :
    s.IsChain fun a b => a = ';' → b ≠ ';' := by
  refine (List.isChain_isInfix s).imp fun a b hab ha hb => ?_
  subst ha hb
  have hsemicolon : isBlank ';' = false := by decide
  have := (hab.filter fun c => !isBlank c).trans (List.suffix_cons ';' _).isInfix
  have := h.infix this
  simp [hsemicolon] at this

/-! ### Tight texts -/

theorem contextFree_punctuation : ContextFree punctuation? := fun _ _ => rfl

/-- A mark goes through without the white space around it. -/
theorem replaceAll_punctuation?_mark {w : List Char} (hw : ∀ c ∈ w, isBlank c = true) {p : Char}
    (hp : isPunctuation p = true) (s : List Char) :
    replaceAll punctuation? (w ++ p :: s) =
      p :: replaceAll punctuation? (s.dropWhile isBlank) := by
  have hblank := isBlank_of_isPunctuation hp
  have htake : (w ++ p :: s).takeWhile isBlank = w := by
    rw [List.takeWhile_append_of_pos hw, List.takeWhile_cons_of_neg (by simp [hblank]), List.append_nil]
  have hdrop : (w ++ p :: s).dropWhile isBlank = p :: s := by
    rw [List.dropWhile_append_of_pos hw, List.dropWhile_cons_of_neg (by simp [hblank])]
  obtain ⟨k, hk, htext, hrest⟩ := Cut.char?_gives (s := (Cut.span isBlank (w ++ p :: s)).rest) hdrop hp
  have hgives : punctuation? none (w ++ p :: s) =
      some ([p], ((Cut.span isBlank (w ++ p :: s)).andThen k).andThen (Cut.span isBlank k.rest)) := by
    simp only [punctuation?, hk, Option.bind_eq_bind, Option.bind_some, htext]
    rfl
  refine replaceAll_of_gives contextFree_punctuation (u := w ++ p :: s.takeWhile isBlank) ?_ (by simp)
    hgives ?_
  · simp [List.takeWhile_append_dropWhile]
  · show ((w ++ p :: s).takeWhile isBlank ++ k.text) ++ k.rest.takeWhile isBlank = _
    rw [htake, htext, hrest]
    simp

theorem replaceAll_punctuation?_other {c : Char} {s : List Char}
    (h : ∀ d ∈ ((c :: s).dropWhile isBlank).head?, isPunctuation d = false) :
    replaceAll punctuation? (c :: s) = c :: replaceAll punctuation? s := by
  refine replaceAll_of_none contextFree_punctuation ?_
  have hnone : Cut.char? isPunctuation ((c :: s).dropWhile isBlank) = none := by
    cases hd : (c :: s).dropWhile isBlank with
    | nil => rfl
    | cons d t => exact Cut.char?_neg (h d (by rw [hd]; rfl)) t
  simp [punctuation?, hnone]

theorem tight_replaceAll {s : List Char} (hs : s.IsChain Squeezed) :
    (replaceAll punctuation? s).IsChain Tight ∧
      ∀ d ∈ (replaceAll punctuation? s).head?,
        d ∈ s.head? ∨ isPunctuation d = true ∧ ∃ b ∈ s.head?, isBlank b = true := by
  induction hn : s.length using Nat.strongRecOn generalizing s with
  | _ n ih =>
    cases s with
    | nil => simp
    | cons c s =>
      have hchain := List.isChain_cons.1 hs
      -- a mark, with one blank before it or none
      have hmark : ∀ w p u, c :: s = w ++ p :: u → (∀ d ∈ w, isBlank d = true) →
          isPunctuation p = true → (replaceAll punctuation? (c :: s)).IsChain Tight ∧
            ∀ d ∈ (replaceAll punctuation? (c :: s)).head?,
              d ∈ (c :: s).head? ∨ isPunctuation d = true ∧ ∃ b ∈ (c :: s).head?, isBlank b = true := by
        intro w p u heq hw hp
        have hlen : (u.dropWhile isBlank).length < n := by
          have h1 := (List.dropWhile_suffix (l := u) isBlank).length_le
          have h2 := congrArg List.length heq
          simp only [List.length_append, List.length_cons] at h2 hn
          omega
        have hu : (u.dropWhile isBlank).IsChain Squeezed :=
          hs.suffix ((List.dropWhile_suffix isBlank).trans ⟨w ++ [p], by rw [heq]; simp⟩)
        obtain ⟨ihchain, ihhead⟩ := ih _ hlen hu rfl
        rw [heq, replaceAll_punctuation?_mark hw hp]
        refine ⟨ihchain.cons fun d hd => ?_, fun d hd => ?_⟩
        · have hd : isBlank d = false := by
            rcases ihhead d hd with h | ⟨h, -⟩
            · exact isBlank_of_mem_head?_dropWhile h
            · exact isBlank_of_isPunctuation h
          have hpb := isBlank_of_isPunctuation hp
          exact ⟨by simp [Squeezed, hpb], by simp [hpb], fun _ => hd⟩
        · obtain rfl : p = d := by simpa using hd
          cases w with
          | nil => exact .inl rfl
          | cons e w => exact .inr ⟨hp, e, rfl, hw e (by simp)⟩
      have hlen : s.length < n := by simp only [List.length_cons] at hn; omega
      obtain ⟨ihchain, ihhead⟩ := ih _ hlen hchain.2 rfl
      by_cases hp : isPunctuation c = true
      · exact hmark [] c s rfl (by simp) hp
      by_cases hc : isBlank c = true
      · by_cases hd : ∃ d ∈ s.head?, isPunctuation d = true
        · obtain ⟨d, hd, hpd⟩ := hd
          obtain ⟨t, rfl⟩ := List.head?_eq_some_iff.1 hd
          exact hmark [c] d t rfl (by simpa using hc) hpd
        · have hd : ∀ d ∈ s.head?, isPunctuation d = false := by simpa using hd
          have hself := dropWhile_isBlank_eq_self fun d hd => hchain.1 d hd hc
          rw [replaceAll_punctuation?_other (by rw [List.dropWhile_cons_of_pos hc, hself]; exact hd)]
          refine ⟨ihchain.cons fun e he => ?_, by simp⟩
          rcases ihhead e he with h | ⟨-, b, hb, hblank⟩
          · exact ⟨fun _ => hchain.1 e h hc, fun _ => hd e h, fun h => absurd h hp⟩
          · rw [hchain.1 b hb hc] at hblank
            cases hblank
      · rw [replaceAll_punctuation?_other (by rw [List.dropWhile_cons_of_neg hc]; simpa using hp)]
        refine ⟨ihchain.cons fun e he => ?_, by simp⟩
        exact ⟨fun h => absurd h hc, fun h => absurd h hc, fun h => absurd h hp⟩

theorem tight_eq_self {s : List Char} (hs : s.IsChain Tight) : replaceAll punctuation? s = s := by
  induction s with
  | nil => simp
  | cons c s ih =>
    have hchain := List.isChain_cons.1 hs
    have ih := ih hchain.2
    by_cases hp : isPunctuation c = true
    · have hself := dropWhile_isBlank_eq_self fun d hd => (hchain.1 d hd).behind hp
      have := replaceAll_punctuation?_mark (w := []) (by simp) hp s
      rwa [hself, ih] at this
    · rw [replaceAll_punctuation?_other, ih]
      by_cases hc : isBlank c = true
      · rw [List.dropWhile_cons_of_pos hc,
          dropWhile_isBlank_eq_self fun d hd => (hchain.1 d hd).squeezed hc]
        exact fun d hd => (hchain.1 d hd).ahead hc
      · rw [List.dropWhile_cons_of_neg hc]
        simpa using hp

theorem filter_punctuation (s : List Char) : ((replaceAll punctuation? s).filter fun c => !isBlank c) =
    s.filter fun c => !isBlank c := by
  refine filter_replaceAll (fun b t a k hk => ?_) s
  simp only [punctuation?, Option.bind_eq_bind, Option.bind_eq_some_iff, Option.pure_def,
    Option.some.injEq, Prod.mk.injEq] at hk
  obtain ⟨mark, -, rfl, rfl⟩ := hk
  show _ = (t.takeWhile isBlank ++ mark.text ++ mark.rest.takeWhile isBlank).filter _
  rw [List.filter_append, List.filter_append, filter_takeWhile_isBlank, filter_takeWhile_isBlank,
    List.nil_append, List.append_nil]

/-! ### Joined texts -/

theorem contextFree_colon : ContextFree colon? := fun _ _ => rfl

theorem replaceAll_colon?_colon (s : List Char) :
    replaceAll colon? (':' :: s) = ':' :: replaceAll colon? (s.dropWhile isBlank) := by
  have hmark : Cut.char? (· == ':') (':' :: s) = some ⟨[':'], s, rfl⟩ := Cut.char?_pos (by decide) s
  have hnone (h : Cut.spanSome? isBlank s = none) : colon? none (':' :: s) = none := by
    simp only [colon?, hmark, Option.bind_eq_bind, Option.bind_some, h, Option.bind_none]
  cases s with
  | nil => rw [replaceAll_of_none contextFree_colon (hnone rfl), List.dropWhile_nil]
  | cons c s =>
    by_cases hc : isBlank c = true
    · have hgives : ∃ k : Cut (':' :: c :: s), colon? none (':' :: c :: s) = some ([':'], k) ∧
          k.text = ':' :: c :: s.takeWhile isBlank := by
        refine ⟨Cut.andThen ⟨[':'], c :: s, rfl⟩ (Cut.andThen ⟨[c], s, rfl⟩ (Cut.span isBlank s)), ?_, rfl⟩
        simp only [colon?, hmark, Option.bind_eq_bind, Option.bind_some, Cut.spanSome?_pos hc]
        rfl
      obtain ⟨k, hk, htext⟩ := hgives
      rw [List.dropWhile_cons_of_pos hc]
      exact replaceAll_of_gives contextFree_colon (by simp [List.takeWhile_append_dropWhile]) (by simp)
        hk htext
    · rw [List.dropWhile_cons_of_neg hc]
      exact replaceAll_of_none contextFree_colon (hnone (Cut.spanSome?_neg (by simpa using hc) s))

theorem replaceAll_colon?_other {c : Char} (h : c ≠ ':') (s : List Char) :
    replaceAll colon? (c :: s) = c :: replaceAll colon? s := by
  refine replaceAll_of_none contextFree_colon ?_
  have hnone : Cut.char? (· == ':') (c :: s) = none := Cut.char?_neg (p := (· == ':')) (beq_false_of_ne h) s
  simp only [colon?, hnone, Option.bind_eq_bind, Option.bind_none]

theorem head?_replaceAll_colon? (s : List Char) : (replaceAll colon? s).head? = s.head? := by
  cases s with
  | nil => simp
  | cons c s =>
    by_cases hc : c = ':'
    · rw [hc, replaceAll_colon?_colon]
      rfl
    · rw [replaceAll_colon?_other hc]
      rfl

theorem joined_replaceAll {s : List Char} (hs : s.IsChain Tight) :
    (replaceAll colon? s).IsChain Joined := by
  induction hn : s.length using Nat.strongRecOn generalizing s with
  | _ n ih =>
    cases s with
    | nil => simp
    | cons c s =>
      simp only [List.length_cons] at hn
      have hchain := List.isChain_cons.1 hs
      by_cases hc : c = ':'
      · subst hc
        have hlen := (List.dropWhile_suffix (l := s) isBlank).length_le
        rw [replaceAll_colon?_colon]
        refine (ih _ (by omega) (hchain.2.suffix (List.dropWhile_suffix isBlank)) rfl).cons fun d hd => ?_
        rw [head?_replaceAll_colon?] at hd
        have hd := isBlank_of_mem_head?_dropWhile hd
        exact ⟨⟨fun _ => hd, fun h => absurd h (by decide), fun _ => hd⟩, fun _ => hd⟩
      · rw [replaceAll_colon?_other hc]
        refine (ih _ (by omega) hchain.2 rfl).cons fun d hd => ?_
        rw [head?_replaceAll_colon?] at hd
        exact ⟨hchain.1 d hd, fun h => absurd h hc⟩

theorem joined_eq_self {s : List Char} (hs : s.IsChain Joined) : replaceAll colon? s = s := by
  induction s with
  | nil => simp
  | cons c s ih =>
    have hchain := List.isChain_cons.1 hs
    by_cases hc : c = ':'
    · rw [hc, replaceAll_colon?_colon, dropWhile_isBlank_eq_self fun d hd => (hchain.1 d hd).colon hc,
        ih hchain.2]
    · rw [replaceAll_colon?_other hc, ih hchain.2]

theorem filter_colon (s : List Char) : ((replaceAll colon? s).filter fun c => !isBlank c) =
    s.filter fun c => !isBlank c := by
  refine filter_replaceAll (fun b t a k hk => ?_) s
  simp only [colon?, Option.bind_eq_bind, Option.bind_eq_some_iff, Option.pure_def,
    Option.some.injEq, Prod.mk.injEq] at hk
  obtain ⟨mark, hmark, space, hspace, rfl, rfl⟩ := hk
  have hmark := Cut.text_of_char?_beq hmark
  obtain ⟨d, u, hspace, hd⟩ := Cut.spanSome?_eq_some hspace
  show _ = (mark.text ++ space.text).filter _
  rw [hmark, hspace, List.filter_append]
  simpa [List.filter_eq_nil_iff] using hd

/-! ### Dense texts -/

theorem contextFree_lastSemicolon : ContextFree lastSemicolon? := fun _ _ => rfl

theorem replaceAll_lastSemicolon?_end (s : List Char) :
    replaceAll lastSemicolon? (';' :: '\x7d' :: s) = '\x7d' :: replaceAll lastSemicolon? s := by
  obtain ⟨k, hk, htext, -⟩ := Cut.word?_gives (w := ";\x7d") (s := ';' :: '\x7d' :: s) (v := s) rfl
  have hgives : lastSemicolon? none (';' :: '\x7d' :: s) = some (['\x7d'], k) := by
    rw [lastSemicolon?, hk]
    rfl
  exact replaceAll_of_gives contextFree_lastSemicolon (u := [';', '\x7d']) rfl (by simp) hgives htext

theorem replaceAll_lastSemicolon?_other {c : Char} {s : List Char}
    (h : c = ';' → ∀ d ∈ s.head?, d ≠ '\x7d') :
    replaceAll lastSemicolon? (c :: s) = c :: replaceAll lastSemicolon? s := by
  refine replaceAll_of_none contextFree_lastSemicolon ?_
  have hnone : Cut.wordBy? (· == ·) [';', '\x7d'] (c :: s) = none := by
    by_cases hc : c = ';'
    · subst hc
      cases s with
      | nil => rfl
      | cons d s => simp [Cut.wordBy?, Ne.symm (h rfl d rfl)]
    · exact Cut.wordBy?_neg (beq_false_of_ne (Ne.symm hc)) _ _
  exact Option.map_eq_none_iff.2 hnone

theorem dense_replaceAll {s : List Char} (hs : s.IsChain Joined)
    (hsemi : s.IsChain fun a b => a = ';' → b ≠ ';') :
    (replaceAll lastSemicolon? s).IsChain Dense ∧
      ∀ d ∈ (replaceAll lastSemicolon? s).head?, d ∈ s.head? ∨ d = '\x7d' ∧ s.head? = some ';' := by
  induction hn : s.length using Nat.strongRecOn generalizing s with
  | _ n ih =>
    cases s with
    | nil => simp
    | cons c s =>
      simp only [List.length_cons] at hn
      by_cases hend : c = ';' ∧ s.head? = some '\x7d'
      · obtain ⟨rfl, hhead⟩ := hend
        obtain ⟨s, rfl⟩ := List.head?_eq_some_iff.1 hhead
        have hchain := List.isChain_cons.1 hs.tail
        obtain ⟨ihchain, ihhead⟩ := ih s.length (by simp at hn; omega) hchain.2 hsemi.tail.tail rfl
        rw [replaceAll_lastSemicolon?_end]
        refine ⟨ihchain.cons fun d hd => ?_, by simp⟩
        have hblank : isBlank d = false := by
          rcases ihhead d hd with hd | ⟨rfl, -⟩
          · exact (hchain.1 d hd).behind (by decide)
          · decide
        exact ⟨⟨⟨fun _ => hblank, fun h => absurd h (by decide), fun _ => hblank⟩, fun _ => hblank⟩,
          fun h => absurd h (by decide)⟩
      · have hchain := List.isChain_cons.1 hs
        have hother : c = ';' → ∀ d ∈ s.head?, d ≠ '\x7d' := by
          rintro hc d hd rfl
          exact hend ⟨hc, hd⟩
        obtain ⟨ihchain, ihhead⟩ := ih s.length (by omega) hchain.2 hsemi.tail rfl
        rw [replaceAll_lastSemicolon?_other hother]
        refine ⟨ihchain.cons fun d hd => ?_, by simp⟩
        rcases ihhead d hd with hd | ⟨rfl, hsemicolon⟩
        · exact ⟨hchain.1 d hd, fun hc => hother hc d hd⟩
        · -- the bracket stands where a semicolon stood
          have hc := hchain.1 ';' hsemicolon
          refine ⟨⟨⟨fun _ => by decide, fun h => ?_, fun _ => by decide⟩, fun _ => by decide⟩, fun h => ?_⟩
          · exact absurd (hc.ahead h) (by decide)
          · exact absurd rfl ((List.isChain_cons.1 hsemi).1 ';' hsemicolon h)

theorem dense_eq_self {s : List Char} (hs : s.IsChain Dense) : replaceAll lastSemicolon? s = s := by
  induction s with
  | nil => simp
  | cons c s ih =>
    have hchain := List.isChain_cons.1 hs
    rw [replaceAll_lastSemicolon?_other fun hc d hd => (hchain.1 d hd).last hc, ih hchain.2]

theorem dense_point (a : Char) : Dense a '.' :=
  ⟨⟨⟨fun _ => by decide, fun _ => by decide, fun _ => by decide⟩, fun _ => by decide⟩, fun _ => by decide⟩

/-! ### Compact stylesheets -/

/-- A stylesheet that no pass of compacting changes. -/
structure Compacted (s : List Char) : Prop where
  noSlash : '/' ∉ s
  spaced : Spaced s
  dense : s.IsChain Dense
  unseen : Unseen leadingZeros? none s
  trimmed : trim s = s

theorem comment?_eq_self {s : List Char} (h : '/' ∉ s) : replaceAll comment? s = s := by
  refine replaceAll_eq_self (fun _ _ => rfl) fun u hu => ?_
  have hnone : Cut.word? "/*" u = none := by
    cases u with
    | nil => rfl
    | cons c u =>
      have hc : c ≠ '/' := fun hc => h (hu.subset (by simp [hc]))
      exact Cut.wordBy?_neg (a := '/') (beq_false_of_ne (Ne.symm hc)) ['*'] u
  simp only [comment?, hnone, Option.bind_eq_bind, Option.bind_none]

theorem Compacted.compact_eq {s : List Char} (h : Compacted s) : compact s = s := by
  have hjoined := h.dense.imp fun _ _ hab => hab.toJoined
  have htight := hjoined.imp fun _ _ hab => hab.toTight
  have hsqueezed := htight.imp fun _ _ hab => hab.squeezed
  have hblanks : replaceAll blanks? s = s :=
    (replaceAll_blanks? s).trans (collapse_eq_self hsqueezed h.spaced)
  have hzeros : replaceAll leadingZeros? s = s := h.unseen.replaceFrom_eq
  rw [compact, comment?_eq_self h.noSlash, hblanks, tight_eq_self htight, joined_eq_self hjoined,
    dense_eq_self h.dense, hzeros, h.trimmed]

/-- What compacting leaves is compact, as long as no two semicolons follow each other. -/
theorem compacted_compact {s : List Char} (hascii : Ascii s) (hslash : '/' ∉ s) (hs : Settled s) :
    Compacted (compact s) := by
  have hfiller : ∀ c, isFiller c → c.toNat < 0x80 ∧ (isBlank c = true → c = ' ') := by
    rintro c (rfl | rfl | rfl) <;> decide
  -- white space is squeezed
  have hchars : ∀ c ∈ collapse s, c.toNat < 0x80 ∧ (isBlank c = true → c = ' ') := by
    intro c hc
    refine ⟨?_, spaced_collapseFrom false s c hc⟩
    rcases mem_collapse hc with h | rfl
    · exact hascii c h
    · decide
  have hsqueezed := (squeezed_collapseFrom false s).1
  -- it goes beside punctuation
  have hchars := fills_punctuation.forall_replaceAll hfiller hchars
  have htight := (tight_replaceAll hsqueezed).1
  -- and after colons
  have hchars := fills_colon.forall_replaceAll hfiller hchars
  have hjoined := joined_replaceAll htight
  have hsettled : Settled (replaceAll colon? (replaceAll punctuation? (collapse s))) :=
    settled_of_filter ((filter_colon _).trans ((filter_punctuation _).trans (filter_collapseFrom _ _))) hs
  -- the last semicolons go
  have hchars := fills_lastSemicolon.forall_replaceAll hfiller hchars
  have hdense := (dense_replaceAll hjoined hsettled.isChain).1
  -- and the zeros
  have hzeros := unseen_leadingZeros (fun c hc => (hchars c hc).1) none
  have hchain := isChain_leadingZeros dense_point (b := none) hdense
  have hchars := fills_leadingZeros.forall_replaceAll hfiller hchars
  have heq : compact s = trim (replaceFrom leadingZeros? none (replaceAll lastSemicolon?
      (replaceAll colon? (replaceAll punctuation? (collapse s))))) := by
    rw [compact, comment?_eq_self hslash]
    exact congrArg (fun t => trim (replaceAll leadingZeros? (replaceAll lastSemicolon? (replaceAll colon?
      (replaceAll punctuation? t))))) (replaceAll_blanks? s)
  exact {
    noSlash := fun h => (mem_compact h).elim hslash fun h => by
      rcases h with h | h | h <;> exact absurd h (by decide)
    spaced := fun c hc => (hchars c ((isInfix_trim _).subset (heq ▸ hc))).2
    dense := heq ▸ hchain.infix (isInfix_trim _)
    unseen := heq ▸ unseen_trim (fun c hc => (hchars c hc).2) hzeros
    trimmed := trim_trim _ }

theorem compact_compact {s : List Char} (hascii : Ascii s) (hslash : '/' ∉ s) (hs : Settled s) :
    compact (compact s) = compact s := (compacted_compact hascii hslash hs).compact_eq

/-! ### The stylesheet of a page -/

/-- A text of ASCII characters other than the slash and NUL, with its semicolons apart. -/
structure Regular (s : List Char) : Prop where
  ascii : Ascii s
  noSlash : '/' ∉ s
  noNul : '\x00' ∉ s
  settled : Settled s

theorem isSheetChar_iff {c : Char} : isSheetChar c = true ↔
    c.toNat < 0x80 ∧ c ≠ '<' ∧ c ≠ '/' ∧ c ≠ ';' ∧ c ≠ '\x00' := by
  simp [isSheetChar, and_assoc]

theorem Regular.append {s t : List Char} (hs : Regular s) (ht : Regular t) : Regular (s ++ t) where
  ascii c hc := (List.mem_append.1 hc).elim (hs.ascii c) (ht.ascii c)
  noSlash := by simp [hs.noSlash, ht.noSlash]
  noNul := by simp [hs.noNul, ht.noNul]
  settled := hs.settled.append ht.settled

theorem regular_of_madeOf {s : List Char} (h : MadeOf isSheetChar s) : Regular s where
  ascii c hc := (isSheetChar_iff.1 (h c hc)).1
  noSlash hm := (isSheetChar_iff.1 (h _ hm)).2.2.1 rfl
  noNul hm := (isSheetChar_iff.1 (h _ hm)).2.2.2.2 rfl
  settled := settled_of_forall fun c hc => (isSheetChar_iff.1 (h c hc)).2.2.2.1

theorem law_regular : Law isSheetChar (MadeOf isSheetChar) Regular where
  layout := by decide
  plain := regular_of_madeOf
  append := Regular.append
  value := id
  declared {v} h := by
    have h : MadeOf isSheetChar (": ".toList ++ v) := MadeOf.append (by decide) h
    have hregular := regular_of_madeOf h
    have hend : ∀ c ∈ ";\n".toList, c.toNat < 0x80 ∧ c ≠ '/' ∧ c ≠ '\x00' := by decide
    refine ⟨fun c hc => ?_, fun hm => ?_, fun hm => ?_, ?_⟩
    · exact (List.mem_append.1 hc).elim (hregular.ascii c) fun hc => (hend c hc).1
    · exact (List.mem_append.1 hm).elim hregular.noSlash fun hm => (hend _ hm).2.1 rfl
    · exact (List.mem_append.1 hm).elim hregular.noNul fun hm => (hend _ hm).2.2 rfl
    · have hcolon : isBlank ':' = false := by decide
      have hsemi : ∀ c ∈ ": ".toList ++ v, c ≠ ';' := fun c hc => (isSheetChar_iff.1 (h c hc)).2.2.2.1
      refine settled_of_filter ?_ (settled_concat hsemi (by simp [hcolon]))
      rw [List.filter_append, List.filter_append _ [';']]
      rfl
  trim h := ⟨fun c hc => h.ascii c (mem_of_mem_trim hc), fun hm => h.noSlash (mem_of_mem_trim hm),
    fun hm => h.noNul (mem_of_mem_trim hm), settled_of_filter (filter_trim _) h.settled⟩

/-- The stylesheet of a page is regular when its colours are made of plain characters. -/
theorem regular_pageText {theme : Theme} (h1 : MadeOf isSheetChar theme.primaryColor.toList)
    (h2 : MadeOf isSheetChar theme.secondaryColor.toList) (animate : Bool) :
    Regular (pageText theme animate) := by
  have hunmarked : ∀ {s : String}, MadeOf isSheetChar s.toList → Unmarked s := fun h hm =>
    absurd (h _ hm) (by decide)
  rw [pageText_eq (hunmarked h1) (hunmarked h2)]
  exact law_regular.page (fun _ => id) h1 h2 animate

end PagePress.Stylesheet
