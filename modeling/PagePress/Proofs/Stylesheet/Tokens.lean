import Mathlib.Data.Rat.Defs
import PagePress.Number.Numeral
import PagePress.Proofs.Stylesheet.Dense

/-!
A text without strings and comments as the words and marks of a stylesheet. White space does no more
than keep words apart, and the number at the front of a word counts by its value, so the passes that
follow the comments change none of the tokens but the semicolon at the end of a block
(`tokens_reduced`).
-/

namespace PagePress.Stylesheet

open Text Reduce

/-- A name, a number with its unit, a quoted string, or a mark by itself. -/
inductive Token where
  | name (text : List Char)
  | number (value : ℚ) (unit : List Char)
  | string (text : List Char)
  | mark (c : Char)
deriving DecidableEq

/-- The value of the number at the front of a word, with what follows it. There is a digit before the
point or behind it. -/
def readNumber? (w : List Char) : Option (ℚ × List Char) :=
  let whole := w.takeWhile Char.isDigit
  let rest := w.dropWhile Char.isDigit
  let places := if rest.head? = some '.' then rest.tail.takeWhile Char.isDigit else []
  if places ≠ [] then
    some (Number.decimalValue (whole ++ places) / 10 ^ places.length, rest.tail.dropWhile Char.isDigit)
  else if whole ≠ [] then some (Number.decimalValue whole, rest)
  else none

/-- The token that a word is. -/
def ofWord (w : List Char) : Token :=
  match readNumber? w with
  | some (value, unit) => .number value unit
  | none => .name w

/-- The word read so far as a token, if there is one. -/
def wordTokens (w : List Char) : List Token := if w = [] then [] else [ofWord w]

/-- The tokens of a text behind the word `w`. -/
def tokensFrom (w : List Char) : List Char → List Token
  | [] => wordTokens w
  | c :: s =>
    if isBlank c then wordTokens w ++ tokensFrom [] s
    else if continues c then tokensFrom (w ++ [c]) s
    else wordTokens w ++ .mark c :: tokensFrom [] s

/-- The tokens without each semicolon that stands before the end of a block. -/
def closeBlocks : List Token → List Token
  | [] => []
  | t :: ts =>
    if t = .mark ';' ∧ ts.head? = some (.mark '\x7d') then closeBlocks ts else t :: closeBlocks ts

/-- A text without strings and comments as compacting leaves it, but for the white space at its ends. -/
def reduced (s : List Char) : List Char :=
  replaceAll leadingZeros? (replaceAll lastSemicolon? (replaceAll colon? (replaceAll punctuation?
    (collapse s))))

theorem compact_eq_trim (s : List Char) : compact s = trim (reduced (replaceAll comment? s)) := by
  rw [reduced, ← replaceAll_blanks?]
  rfl

/-! ### Reading on -/

@[simp] theorem wordTokens_nil : wordTokens [] = [] := rfl

theorem wordTokens_of_ne_nil {w : List Char} (h : w ≠ []) : wordTokens w = [ofWord w] := if_neg h

theorem ofWord_ne_mark (w : List Char) (c : Char) : ofWord w ≠ .mark c := by
  unfold ofWord
  split <;> simp

@[simp] theorem tokensFrom_nil (w : List Char) : tokensFrom w [] = wordTokens w := rfl

theorem tokensFrom_of_blank {c : Char} (h : isBlank c = true) (w s : List Char) :
    tokensFrom w (c :: s) = wordTokens w ++ tokensFrom [] s := by
  rw [tokensFrom, if_pos h]

theorem isBlank_of_continues {c : Char} (h : continues c = true) : isBlank c = false := by
  by_contra hblank
  rw [Bool.not_eq_false] at hblank
  have hcases : c = '.' ∨ c = '#' ∨ c = '-' := by
    simpa [continues, isWord_of_isBlank hblank, or_assoc] using h
  rcases hcases with rfl | rfl | rfl <;> exact absurd hblank (by decide)

theorem tokensFrom_of_continues {c : Char} (h : continues c = true) (w s : List Char) :
    tokensFrom w (c :: s) = tokensFrom (w ++ [c]) s := by
  rw [tokensFrom, if_neg (by simp [isBlank_of_continues h]), if_pos h]

theorem tokensFrom_of_mark {c : Char} (hblank : isBlank c = false) (h : continues c = false)
    (w s : List Char) : tokensFrom w (c :: s) = wordTokens w ++ .mark c :: tokensFrom [] s := by
  rw [tokensFrom, if_neg (by simp [hblank]), if_neg (by simp [h])]

/-- Texts that go on alike have the same tokens. -/
theorem tokensFrom_cons_congr {s t : List Char} (h : ∀ w, tokensFrom w s = tokensFrom w t)
    (w : List Char) (c : Char) : tokensFrom w (c :: s) = tokensFrom w (c :: t) := by
  simp only [tokensFrom, h]

/-- A word goes on as long as its characters do. -/
theorem tokensFrom_append_of_continues {u : List Char} (h : ∀ c ∈ u, continues c = true)
    (w s : List Char) : tokensFrom w (u ++ s) = tokensFrom (w ++ u) s := by
  induction u generalizing w with
  | nil => simp
  | cons c u ih =>
    rw [List.cons_append, tokensFrom_of_continues (h c (by simp)), ih fun d hd => h d (by simp [hd]),
      List.append_assoc, List.singleton_append]

/-- A text begins with the token of the word before it. -/
theorem head?_tokensFrom {w : List Char} (hw : w ≠ []) (s : List Char) :
    ∃ u, (tokensFrom w s).head? = some (ofWord u) := by
  have hhead : ∀ {u : List Char} (ts : List Token), u ≠ [] →
      (wordTokens u ++ ts).head? = some (ofWord u) := fun ts hu => by rw [wordTokens_of_ne_nil hu]; rfl
  induction s generalizing w with
  | nil => exact ⟨w, by simpa using hhead [] hw⟩
  | cons c s ih =>
    unfold tokensFrom
    split
    · exact ⟨w, hhead _ hw⟩
    · split
      · exact ih (by simp)
      · exact ⟨w, hhead _ hw⟩

/-! ### White space -/

theorem tokensFrom_collapseFrom {w : List Char} {b : Bool} (h : b = true → w = []) (s : List Char) :
    tokensFrom w (collapseFrom b s) = tokensFrom w s := by
  induction s generalizing w b with
  | nil => rfl
  | cons c s ih =>
    by_cases hc : isBlank c = true
    · rw [tokensFrom_of_blank hc]
      cases b with
      | true =>
        obtain rfl := h rfl
        simp [collapseFrom, hc, ih]
      | false =>
        rw [← ih (w := []) (b := true) fun _ => rfl]
        simp only [collapseFrom, hc, if_true, Bool.false_eq_true, if_false]
        exact tokensFrom_of_blank (by decide) _ _
    · rw [collapseFrom_of_not_blank (by simpa using hc)]
      exact tokensFrom_cons_congr (fun w => ih (by simp)) w c

/-- White space and the mark behind it. -/
theorem tokensFrom_blanks_mark {u : List Char} (hu : ∀ c ∈ u, isBlank c = true) {p : Char}
    (hblank : isBlank p = false) (hp : continues p = false) (w s : List Char) :
    tokensFrom w (u ++ p :: s) = wordTokens w ++ .mark p :: tokensFrom [] s := by
  induction u generalizing w with
  | nil => exact tokensFrom_of_mark hblank hp w s
  | cons c u ih =>
    rw [List.cons_append, tokensFrom_of_blank (hu c (by simp)), ih fun d hd => hu d (by simp [hd])]
    rfl

theorem tokensFrom_dropWhile (s : List Char) : tokensFrom [] (s.dropWhile isBlank) = tokensFrom [] s := by
  induction s with
  | nil => rfl
  | cons c s ih =>
    by_cases hc : isBlank c = true
    · rw [List.dropWhile_cons_of_pos hc, tokensFrom_of_blank hc, ih]
      rfl
    · rw [List.dropWhile_cons_of_neg hc]

theorem continues_of_isPunctuation {c : Char} (h : isPunctuation c = true) : continues c = false := by
  have h : c ∈ ['{', '}', ';', ',', '>'] := List.contains_iff_mem.1 h
  have hall : ∀ c ∈ ['{', '}', ';', ',', '>'], continues c = false := by decide
  exact hall c h

theorem tokensFrom_punctuation (w s : List Char) :
    tokensFrom w (replaceAll punctuation? s) = tokensFrom w s := by
  induction hn : s.length using Nat.strongRecOn generalizing w s with
  | _ n ih =>
    cases s with
    | nil => simp
    | cons c s =>
      simp only [List.length_cons] at hn
      by_cases hp : ∀ d ∈ ((c :: s).dropWhile isBlank).head?, isPunctuation d = false
      · rw [replaceAll_punctuation?_other hp]
        exact tokensFrom_cons_congr (fun w => ih s.length (by omega) w s rfl) w c
      · push Not at hp
        obtain ⟨p, hhead, hp⟩ := hp
        rw [ne_eq, Bool.not_eq_false] at hp
        obtain ⟨t, ht⟩ := List.head?_eq_some_iff.1 hhead
        -- a mark with the white space on its two sides
        have hcut := List.takeWhile_append_dropWhile (p := isBlank) (l := c :: s)
        rw [ht] at hcut
        have hlen : (t.dropWhile isBlank).length < n := by
          have h1 := (List.dropWhile_suffix (l := t) isBlank).length_le
          have h2 := congrArg List.length hcut
          simp only [List.length_append, List.length_cons] at h2
          omega
        have hblanks : ∀ d ∈ (c :: s).takeWhile isBlank, isBlank d = true :=
          fun d hd => List.mem_takeWhile_imp hd
        have hblank := isBlank_of_isPunctuation hp
        have hmark := continues_of_isPunctuation hp
        rw [← hcut, replaceAll_punctuation?_mark hblanks hp, tokensFrom_of_mark hblank hmark,
          tokensFrom_blanks_mark hblanks hblank hmark, ih _ hlen _ _ rfl, tokensFrom_dropWhile]

theorem tokensFrom_colon (w s : List Char) : tokensFrom w (replaceAll colon? s) = tokensFrom w s := by
  induction hn : s.length using Nat.strongRecOn generalizing w s with
  | _ n ih =>
    cases s with
    | nil => simp
    | cons c s =>
      simp only [List.length_cons] at hn
      by_cases hc : c = ':'
      · subst hc
        have hlen := (List.dropWhile_suffix (l := s) isBlank).length_le
        have hmark : continues ':' = false := by decide
        rw [replaceAll_colon?_colon, tokensFrom_of_mark (by decide) hmark,
          tokensFrom_of_mark (by decide) hmark, ih _ (by omega) _ _ rfl, tokensFrom_dropWhile]
      · rw [replaceAll_colon?_other hc]
        exact tokensFrom_cons_congr (fun w => ih s.length (by omega) w s rfl) w c

/-! ### The end of a block -/

@[simp] theorem closeBlocks_nil : closeBlocks [] = [] := rfl

theorem closeBlocks_cons_of_ne {t : Token} (h : t ≠ .mark ';') (ts : List Token) :
    closeBlocks (t :: ts) = t :: closeBlocks ts := by
  rw [closeBlocks, if_neg fun hc => h hc.1]

theorem closeBlocks_end (ts : List Token) :
    closeBlocks (.mark ';' :: .mark '\x7d' :: ts) = .mark '\x7d' :: closeBlocks ts := by
  rw [closeBlocks, if_pos ⟨rfl, rfl⟩, closeBlocks_cons_of_ne (by simp)]

theorem closeBlocks_other {ts : List Token} (h : ts.head? ≠ some (.mark '\x7d')) (t : Token) :
    closeBlocks (t :: ts) = t :: closeBlocks ts := by
  rw [closeBlocks, if_neg fun hc => h hc.2]

theorem closeBlocks_wordTokens (w : List Char) (ts : List Token) :
    closeBlocks (wordTokens w ++ ts) = wordTokens w ++ closeBlocks ts := by
  by_cases hw : w = []
  · subst hw
    rfl
  · rw [wordTokens_of_ne_nil hw]
    exact closeBlocks_cons_of_ne (ofWord_ne_mark w ';') ts

/-- Nothing of a string is between a semicolon and the end of a block. -/
theorem closeBlocks_append_string (ts us : List Token) (u : List Char) :
    closeBlocks (ts ++ .string u :: us) = closeBlocks ts ++ .string u :: closeBlocks us := by
  induction ts with
  | nil => exact closeBlocks_cons_of_ne (by simp) us
  | cons t ts ih =>
    have hhead : (ts ++ .string u :: us).head? = some (.mark '\x7d') ↔
        ts.head? = some (.mark '\x7d') := by
      cases ts <;> simp
    simp only [List.cons_append, closeBlocks, hhead, ih]
    split <;> rfl

/-- Where a text begins with no white space, its first token is no mark but the first character. -/
theorem head?_tokensFrom_ne {m : Char} {s : List Char}
    (h : ∀ d ∈ s.head?, isBlank d = false ∧ d ≠ m) : (tokensFrom [] s).head? ≠ some (.mark m) := by
  cases s with
  | nil => simp
  | cons d s =>
    obtain ⟨hblank, hne⟩ := h d rfl
    by_cases hd : continues d = true
    · rw [tokensFrom_of_continues hd]
      obtain ⟨u, hu⟩ := head?_tokensFrom (w := [] ++ [d]) (by simp) s
      rw [hu]
      simp [ofWord_ne_mark]
    · rw [tokensFrom_of_mark hblank (by simpa using hd)]
      simpa using hne

/-- In a text without white space around its marks, a semicolon before the end of a block stands
directly before it. -/
theorem tokensFrom_lastSemicolon {s : List Char} (hs : s.IsChain Tight) (w : List Char) :
    tokensFrom w (replaceAll lastSemicolon? s) = closeBlocks (tokensFrom w s) := by
  have hsemicolon : continues ';' = false := by decide
  have hbracket : continues '\x7d' = false := by decide
  induction hn : s.length using Nat.strongRecOn generalizing w s with
  | _ n ih =>
    cases s with
    | nil => simpa using (closeBlocks_wordTokens w []).symm
    | cons c s =>
      simp only [List.length_cons] at hn
      have htail := List.isChain_cons.1 hs
      by_cases hc : c = ';'
      · subst hc
        rw [tokensFrom_of_mark (by decide) hsemicolon, closeBlocks_wordTokens]
        by_cases hend : s.head? = some '\x7d'
        · obtain ⟨s, rfl⟩ := List.head?_eq_some_iff.1 hend
          simp only [List.length_cons] at hn
          have hend := tokensFrom_of_mark (c := '\x7d') (by decide) hbracket
          rw [replaceAll_lastSemicolon?_end, hend, hend, wordTokens_nil, List.nil_append, closeBlocks_end,
            ih s.length (by omega) (s := s) htail.2.tail _ rfl]
        · have hother : ∀ d ∈ s.head?, d ≠ '\x7d' := fun d hd h => hend (h ▸ hd)
          have hhead := head?_tokensFrom_ne fun d hd => ⟨(htail.1 d hd).behind (by decide), hother d hd⟩
          rw [replaceAll_lastSemicolon?_other fun _ => hother, tokensFrom_of_mark (by decide) hsemicolon,
            closeBlocks_other hhead, ih s.length (by omega) htail.2 _ rfl]
      · rw [replaceAll_lastSemicolon?_other fun h => absurd h hc]
        have ih := fun w => ih s.length (by omega) htail.2 w rfl
        unfold tokensFrom
        split
        · rw [ih, closeBlocks_wordTokens]
        · split
          · rw [ih]
          · rw [ih, closeBlocks_wordTokens, closeBlocks_cons_of_ne (by simpa using hc)]

/-! ### Zeros before a point -/

/-- The digits of a text are ASCII digits. -/
def PlainDigits (s : List Char) : Prop := ∀ c ∈ s, isDigit c = true → c.isDigit = true

theorem continues_of_plainDigit {c : Char} (h : c.isDigit = true) : continues c = true := by
  have hascii : c.toNat < 0x80 := by
    have h : c.toNat ≤ 57 := (Char.isDigit_iff_toNat.1 h).2
    omega
  simp [continues, isWord, hascii, Char.isAlphanum, h]

theorem decimalValue_zeros {zs : List Char} (hz : ∀ z ∈ zs, z = '0') (ds : List Char) :
    Number.decimalValue (zs ++ ds) = Number.decimalValue ds := by
  have hdigit : digitValue? '0' = some 0 := by decide
  induction zs with
  | nil => rfl
  | cons z zs ih =>
    obtain rfl := hz z (by simp)
    have ih := ih fun z h => hz z (by simp [h])
    rw [← ih]
    simp [Number.decimalValue, Number.ofDigits, hdigit]

/-- Zeros before a point with digits behind it add nothing to the number. -/
theorem readNumber?_zeros {zs : List Char} (hz : ∀ z ∈ zs, z = '0') {d : Char} {ds : List Char}
    (hd : ∀ c ∈ d :: ds, c.isDigit = true) (v : List Char) :
    readNumber? (zs ++ '.' :: (d :: ds ++ v)) =
      some ((Number.decimalValue (d :: ds ++ v.takeWhile Char.isDigit) : ℚ) /
        10 ^ (d :: ds ++ v.takeWhile Char.isDigit).length, v.dropWhile Char.isDigit) := by
  have hzeros : ∀ z ∈ zs, z.isDigit = true := fun z h => by rw [hz z h]; decide
  have hpoint : ¬ ('.'.isDigit = true) := by decide
  have hwhole : (zs ++ '.' :: (d :: ds ++ v)).takeWhile Char.isDigit = zs := by
    rw [List.takeWhile_append_of_pos hzeros, List.takeWhile_cons_of_neg hpoint, List.append_nil]
  have hrest : (zs ++ '.' :: (d :: ds ++ v)).dropWhile Char.isDigit = '.' :: (d :: ds ++ v) := by
    rw [List.dropWhile_append_of_pos hzeros, List.dropWhile_cons_of_neg hpoint]
  have htake : (d :: ds ++ v).takeWhile Char.isDigit = d :: ds ++ v.takeWhile Char.isDigit :=
    List.takeWhile_append_of_pos hd
  have hdrop : (d :: ds ++ v).dropWhile Char.isDigit = v.dropWhile Char.isDigit :=
    List.dropWhile_append_of_pos hd
  rw [readNumber?, hwhole, hrest]
  simp only [List.head?_cons, if_true, List.tail_cons, htake, hdrop, decimalValue_zeros hz]
  exact if_pos (by simp)

theorem wordTokens_zeros {zs : List Char} (hz : ∀ z ∈ zs, z = '0') {d : Char} {ds : List Char}
    (hd : ∀ c ∈ d :: ds, c.isDigit = true) (v : List Char) :
    wordTokens (zs ++ '.' :: (d :: ds ++ v)) =
      [.number ((Number.decimalValue (d :: ds ++ v.takeWhile Char.isDigit) : ℚ) /
        10 ^ (d :: ds ++ v.takeWhile Char.isDigit).length) (v.dropWhile Char.isDigit)] := by
  rw [wordTokens_of_ne_nil (by simp), ofWord, readNumber?_zeros hz hd]

/-- What is recognised belongs to one word, and this word reads alike without the zeros. -/
theorem wordTokens_of_leadingZeros? {b : Option Char} {s a : List Char} {k : Cut s}
    (h : leadingZeros? b s = some (a, k)) (hs : PlainDigits s) :
    k.text ≠ [] ∧ (∀ c ∈ k.text, continues c = true) ∧ (∀ c ∈ a, continues c = true) ∧
      ∀ v, wordTokens (a ++ v) = wordTokens (k.text ++ v) := by
  obtain ⟨-, zs, d, ds, htext, hz, hd, rfl⟩ := leadingZeros?_eq_some h
  have hd : ∀ c ∈ d :: ds, c.isDigit = true := fun c hc =>
    hs c (k.mem_of_mem_text (by rw [htext]; simp_all)) (hd c hc)
  have hz : ∀ z ∈ '0' :: zs, z = '0' := by simpa using hz
  have hdigits : ∀ c ∈ '.' :: d :: ds, continues c = true := fun c hc =>
    (List.mem_cons.1 hc).elim (by rintro rfl; decide) fun hc => continues_of_plainDigit (hd c hc)
  rw [htext]
  refine ⟨by simp, fun c hc => ?_, hdigits, fun v => ?_⟩
  · rcases List.mem_append.1 hc with hc | hc
    · rw [hz c hc]
      exact continues_of_plainDigit (by decide)
    · exact hdigits c hc
  · have hbare := wordTokens_zeros (List.forall_mem_nil (· = '0')) hd v
    have hzeros := wordTokens_zeros hz hd v
    rw [List.append_assoc]
    exact hbare.trans hzeros.symm

/-- Dropping zeros changes no value. The words read so far read alike whatever follows, and where one
of them could go on with zeros there is none. -/
theorem tokensFrom_leadingZeros {s : List Char} (hs : PlainDigits s) {b : Option Char}
    {w w' : List Char} (hword : ∀ v, wordTokens (w ++ v) = wordTokens (w' ++ v))
    (hb : b.any continues = false → w = [] ∧ w' = []) :
    tokensFrom w (replaceFrom leadingZeros? b s) = tokensFrom w' s := by
  induction hn : s.length using Nat.strongRecOn generalizing s b w w' with
  | _ n ih =>
    have hwhole : wordTokens w = wordTokens w' := by simpa using hword []
    cases s with
    | nil => simpa using hwhole
    | cons c s =>
      simp only [List.length_cons] at hn
      cases hr : leadingZeros? b (c :: s) with
      | none =>
        have hs : PlainDigits s := fun d hd => hs d (by simp [hd])
        rw [replaceFrom_of_none hr]
        by_cases hc : continues c = true
        · have hgrow : ∀ v, wordTokens (w ++ [c] ++ v) = wordTokens (w' ++ [c] ++ v) := fun v => by
            simpa using hword (c :: v)
          rw [tokensFrom_of_continues hc, tokensFrom_of_continues hc]
          exact ih s.length (by omega) hs hgrow (by simp [hc]) rfl
        · have ih := ih s.length (by omega) hs (b := some c) (fun v => rfl) (fun _ => ⟨rfl, rfl⟩) rfl
          by_cases hblank : isBlank c = true
          · rw [tokensFrom_of_blank hblank, tokensFrom_of_blank hblank, ih, hwhole]
          · have hc : continues c = false := by simpa using hc
            have hblank : isBlank c = false := by simpa using hblank
            rw [tokensFrom_of_mark hblank hc, tokensFrom_of_mark hblank hc, ih, hwhole]
      | some x =>
        obtain ⟨a, k⟩ := x
        obtain ⟨hne, htext, ha, hgrow⟩ := wordTokens_of_leadingZeros? hr hs
        obtain ⟨rfl, rfl⟩ := hb (leadingZeros?_eq_some hr).1
        have hcut := k.append_eq
        have hlen : k.rest.length < s.length + 1 := by
          have hlen := congrArg List.length hcut
          have hpos := List.length_pos_iff.2 hne
          simp only [List.length_append, List.length_cons] at hlen
          omega
        have hlast : (k.text.getLast?.or b).any continues = true := by
          rw [List.getLast?_eq_some_getLast hne, Option.some_or]
          exact htext _ (List.getLast_mem hne)
        have htokens := tokensFrom_append_of_continues htext [] k.rest
        rw [hcut] at htokens
        rw [replaceFrom_of_some hne hr rfl, tokensFrom_append_of_continues ha, htokens]
        exact ih k.rest.length (by omega) (fun c hc => hs c (k.mem_of_mem_rest hc)) hgrow
          (fun h => absurd (hlast.symm.trans h) (by decide)) rfl

/-! ### All passes -/

/-- What is left of a text has its tokens, but for each semicolon that ends a block. -/
theorem tokens_reduced {s : List Char} (hs : PlainDigits s) :
    tokensFrom [] (reduced s) = closeBlocks (tokensFrom [] s) := by
  have hfiller : ∀ c, isFiller c → isDigit c = true → c.isDigit = true := by
    rintro c (rfl | rfl | rfl) <;> decide
  have hdigits : PlainDigits (collapse s) := fun c hc =>
    (mem_collapse hc).elim (hs c) fun h => hfiller c (.inl h)
  have hdigits := fills_punctuation.forall_replaceAll hfiller hdigits
  have hdigits := fills_colon.forall_replaceAll hfiller hdigits
  have hdigits := fills_lastSemicolon.forall_replaceAll hfiller hdigits
  have hsqueezed : (collapse s).IsChain Squeezed := (squeezed_collapseFrom false s).1
  have htight := (joined_replaceAll (tight_replaceAll hsqueezed).1).imp fun _ _ h => h.toTight
  calc tokensFrom [] (reduced s)
    _ = tokensFrom [] (replaceAll lastSemicolon? (replaceAll colon? (replaceAll punctuation?
          (collapse s)))) := tokensFrom_leadingZeros hdigits (fun _ => rfl) fun _ => ⟨rfl, rfl⟩
    _ = closeBlocks (tokensFrom [] s) := by
      rw [tokensFrom_lastSemicolon htight, tokensFrom_colon, tokensFrom_punctuation,
        collapse, tokensFrom_collapseFrom (by simp)]

end PagePress.Stylesheet
