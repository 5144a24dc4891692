import Mathlib.Data.List.Chain
import Mathlib.Data.List.DropRight
import PagePress.Proofs.Scan
import PagePress.Reduce.Blanks

/-!
White space of a text. `collapse` turns every run of it into one space by a recursion over the
characters, and `replaceAll_blanks?` equates it with the scan for runs; the scan for white space
between two tags is described one character at a time (`replaceAll_betweenTags?_mark`). A collapsed
text has spaces only, no two of them side by side, and is not changed any more (`collapse_eq_self`).
-/

namespace PagePress.Text

open Reduce

/-! ### Code points -/

/-- The code points of white space. -/
def blankCodes : List Nat :=
  [9, 10, 11, 12, 13, 28, 29, 30, 31, 32, 133, 160, 5760, 8192, 8193, 8194, 8195, 8196, 8197, 8198, 8199,
    8200, 8201, 8202, 8232, 8233, 8239, 8287, 12288]

theorem mem_blankCodes {c : Char} (h : isBlank c = true) : c.toNat ∈ blankCodes := by
  simp only [isBlank, Bool.or_eq_true, Bool.and_eq_true, decide_eq_true_eq, beq_iff_eq] at h
  simp only [blankCodes, List.mem_cons, List.not_mem_nil, or_false]
  omega

/-- White space belongs to no word. -/
theorem isWord_of_isBlank {c : Char} (h : isBlank c = true) : isWord c = false := by
  have hcode := mem_blankCodes h
  unfold isWord
  split
  · have hall : ∀ n ∈ blankCodes, n < 0x80 →
        ((Char.ofNat n).isAlphanum || Char.ofNat n == '_') = false := by decide
    simpa using hall c.toNat hcode ‹_›
  · have hall : ∀ n ∈ blankCodes, covers wordRanges n = false := by decide +kernel
    exact hall c.toNat hcode

/-! ### Runs of white space -/

/-- Every run of white space becomes one space; the flag tells that a run has begun. -/
def collapseFrom (begun : Bool) : List Char → List Char
  | [] => []
  | c :: s =>
    if isBlank c then if begun then collapseFrom true s else ' ' :: collapseFrom true s
    else c :: collapseFrom false s

/-- The text with every run of white space turned into one space. -/
def collapse (s : List Char) : List Char := collapseFrom false s

@[simp] theorem collapse_nil : collapse [] = [] := rfl

theorem collapseFrom_of_not_blank {c : Char} (h : isBlank c = false) (b : Bool) (s : List Char) :
    collapseFrom b (c :: s) = c :: collapse s := by
  simp [collapseFrom, h, collapse]

theorem collapse_cons_of_not_blank {c : Char} (h : isBlank c = false) (s : List Char) :
    collapse (c :: s) = c :: collapse s := collapseFrom_of_not_blank h false s

theorem collapse_cons_of_blank {c : Char} (h : isBlank c = true) (s : List Char) :
    collapse (c :: s) = ' ' :: collapseFrom true s := by
  simp [collapse, collapseFrom, h]

/-- Nothing runs together across a character that is not white space. -/
theorem collapseFrom_append {c : Char} (h : isBlank c = false) (b : Bool) (u v : List Char) :
    collapseFrom b (u ++ c :: v) = collapseFrom b u ++ c :: collapse v := by
  induction u generalizing b with
  | nil => exact collapseFrom_of_not_blank h b v
  | cons d u ih =>
    by_cases hd : isBlank d = true
    · cases b <;> simp [collapseFrom, hd, ih]
    · simp [collapseFrom, hd, ih]

theorem collapse_append {c : Char} (h : isBlank c = false) (u v : List Char) :
    collapse (u ++ c :: v) = collapse u ++ collapse (c :: v) := by
  rw [collapse_cons_of_not_blank h, collapse, collapseFrom_append h]
  rfl

/-- A text that ends in a character other than white space. -/
def EndsSolid (s : List Char) : Prop := ∃ u c, s = u ++ [c] ∧ isBlank c = false

theorem EndsSolid.append {s : List Char} (h : EndsSolid s) (u : List Char) : EndsSolid (u ++ s) := by
  obtain ⟨w, c, rfl, hc⟩ := h
  exact ⟨u ++ w, c, by simp, hc⟩

theorem endsSolid_of_forall {s : List Char} (hne : s ≠ []) (h : ∀ c ∈ s, isBlank c = false) :
    EndsSolid s :=
  ⟨s.dropLast, s.getLast hne, (List.dropLast_concat_getLast hne).symm, h _ (List.getLast_mem hne)⟩

theorem EndsSolid.collapse_append {s : List Char} (h : EndsSolid s) (v : List Char) :
    collapse (s ++ v) = collapse s ++ collapse v := by
  obtain ⟨u, c, rfl, hc⟩ := h
  rw [List.append_assoc, List.singleton_append, Text.collapse_append hc, Text.collapse_append hc,
    collapse_cons_of_not_blank hc, collapse_cons_of_not_blank hc]
  simp

theorem collapse_of_forall {s : List Char} (h : ∀ c ∈ s, isBlank c = false) : collapse s = s := by
  induction s with
  | nil => rfl
  | cons c s ih =>
    rw [collapse_cons_of_not_blank (h c (by simp)), ih fun d hd => h d (by simp [hd])]

theorem collapseFrom_true (s : List Char) : collapseFrom true s = collapse (s.dropWhile isBlank) := by
  induction s with
  | nil => rfl
  | cons c s ih =>
    by_cases hc : isBlank c = true
    · simp [collapseFrom, hc, ih]
    · simp [collapseFrom, hc, collapse]

theorem mem_collapseFrom {b : Bool} {s : List Char} {c : Char} (h : c ∈ collapseFrom b s) :
    c ∈ s ∨ c = ' ' := by
  induction s generalizing b with
  | nil => simp [collapseFrom] at h
  | cons d s ih =>
    unfold collapseFrom at h
    split at h
    · split at h
      · exact (ih h).imp_left (List.mem_cons_of_mem _)
      · rcases List.mem_cons.1 h with h | h
        · exact .inr h
        · exact (ih h).imp_left (List.mem_cons_of_mem _)
    · rcases List.mem_cons.1 h with rfl | h
      · simp
      · exact (ih h).imp_left (List.mem_cons_of_mem _)

theorem mem_collapse {s : List Char} {c : Char} (h : c ∈ collapse s) : c ∈ s ∨ c = ' ' :=
  mem_collapseFrom h

theorem collapse_ne_nil {s : List Char} (h : s ≠ []) : collapse s ≠ [] := by
  obtain ⟨c, s, rfl⟩ := List.exists_cons_of_ne_nil h
  by_cases hc : isBlank c = true
  · simp [collapse_cons_of_blank hc]
  · simp [collapse_cons_of_not_blank (by simpa using hc)]

/-- The scan for runs of white space collapses a text. -/
theorem replaceAll_blanks? (s : List Char) : replaceAll blanks? s = collapse s := by
  have hfree : ContextFree blanks? := fun _ _ => rfl
  induction hn : s.length using Nat.strongRecOn generalizing s with
  | _ n ih =>
    cases s with
    | nil => simp
    | cons c s =>
      simp only [List.length_cons] at hn
      by_cases hc : isBlank c = true
      · have hlen : (s.dropWhile isBlank).length < n := by
          have := (List.dropWhile_suffix (l := s) isBlank).length_le
          omega
        have hcut : c :: s = (c :: s.takeWhile isBlank) ++ s.dropWhile isBlank := by
          simp [List.takeWhile_append_dropWhile]
        have hblanks : blanks? none (c :: s) =
            some ([' '], Cut.andThen ⟨[c], s, rfl⟩ (Cut.span isBlank s)) := by
          rw [blanks?, Cut.spanSome?_pos hc, Option.map_some]
        rw [replaceAll_of_gives hfree hcut (by simp) hblanks rfl, ih _ hlen _ rfl,
          collapse_cons_of_blank hc, collapseFrom_true]
        rfl
      · have hc : isBlank c = false := by simpa using hc
        have hnone : blanks? none (c :: s) = none := by simp [blanks?, Cut.spanSome?_neg hc]
        rw [replaceAll_of_none hfree hnone, collapse_cons_of_not_blank hc, ih s.length (by omega) _ rfl]

/-! ### White space between tags -/

/-- The text after a tag without the white space before the next tag. -/
def strip (s : List Char) : List Char :=
  if (s.dropWhile isBlank).head? = some '<' then s.dropWhile isBlank else s

theorem contextFree_betweenTags : ContextFree betweenTags? := fun _ _ => rfl

theorem atMark_betweenTags {c : Char} (h : c ≠ '>') (s : List Char) :
    betweenTags? none (c :: s) = none := by
  simp [betweenTags?, Cut.char?, beq_false_of_ne h]

/-- A text without `>` is passed over. -/
theorem replaceAll_betweenTags?_append {u : List Char} (hu : '>' ∉ u) (v : List Char) :
    replaceAll betweenTags? (u ++ v) = u ++ replaceAll betweenTags? v := by
  induction u with
  | nil => rfl
  | cons c u ih =>
    rw [List.mem_cons, not_or] at hu
    rw [List.cons_append,
      replaceAll_of_none contextFree_betweenTags (atMark_betweenTags (Ne.symm hu.1) _), ih hu.2]
    rfl

theorem char?_closeMark (s : List Char) : Cut.char? (· == '>') ('>' :: s) = some ⟨['>'], s, rfl⟩ :=
  Cut.char?_pos (by decide) s

/-- White space between two tags is taken with the marks around it. -/
theorem betweenTags?_of_mark {c : Char} (hc : isBlank c = true) {s w : List Char}
    (hs : s.dropWhile isBlank = '<' :: w) :
    ∃ k : Cut ('>' :: c :: s), betweenTags? none ('>' :: c :: s) = some (['>', '<'], k) ∧
      k.text = '>' :: c :: s.takeWhile isBlank ++ ['<'] := by
  obtain ⟨k, hk, ht, -⟩ := Cut.char?_gives (s := (Cut.span isBlank s).rest) (p := (· == '<')) hs (by decide)
  refine ⟨(Cut.andThen ⟨['>'], c :: s, rfl⟩
    (Cut.andThen ⟨[c], s, rfl⟩ (Cut.span isBlank s))).andThen k, ?_, ?_⟩
  · simp only [betweenTags?, char?_closeMark, Cut.spanSome?_pos hc, Option.bind_eq_bind, Option.bind_some]
    rw [show Cut.char? (· == '<') (Cut.andThen ⟨[c], s, rfl⟩ (Cut.span isBlank s)).rest = some k from hk]
    rfl
  · show '>' :: c :: s.takeWhile isBlank ++ k.text = _
    rw [ht]

theorem betweenTags?_of_no_mark {s : List Char} (hs : (s.dropWhile isBlank).head? ≠ some '<') :
    betweenTags? none ('>' :: s) = none := by
  cases s with
  | nil => rfl
  | cons c s =>
    by_cases hc : isBlank c = true
    · rw [List.dropWhile_cons_of_pos hc] at hs
      have hnone : Cut.char? (· == '<') (s.dropWhile isBlank) = none := by
        cases hd : s.dropWhile isBlank with
        | nil => rfl
        | cons d w =>
          have hne : d ≠ '<' := fun h => hs (by rw [hd, h]; rfl)
          simp [Cut.char?, beq_false_of_ne hne]
      simp [betweenTags?, char?_closeMark, Cut.spanSome?_pos hc, hnone]
    · simp [betweenTags?, char?_closeMark, Cut.spanSome?_neg (by simpa using hc)]

/-- After the end of a tag, the white space before the next tag goes. -/
theorem replaceAll_betweenTags?_mark (s : List Char) :
    replaceAll betweenTags? ('>' :: s) = '>' :: replaceAll betweenTags? (strip s) := by
  by_cases hs : (s.dropWhile isBlank).head? = some '<'
  · obtain ⟨w, hw⟩ := List.head?_eq_some_iff.1 hs
    rw [strip, if_pos hs]
    cases s with
    | nil => cases hw
    | cons c s =>
      by_cases hc : isBlank c = true
      · rw [List.dropWhile_cons_of_pos hc] at hw ⊢
        obtain ⟨k, hk, ht⟩ := betweenTags?_of_mark hc hw
        have hcut : '>' :: c :: s = ('>' :: c :: s.takeWhile isBlank ++ ['<']) ++ w := by
          have := List.takeWhile_append_dropWhile (p := isBlank) (l := s)
          rw [hw] at this
          simp [this]
        rw [replaceAll_of_gives contextFree_betweenTags hcut (by simp) hk ht, hw,
          replaceAll_of_none contextFree_betweenTags (atMark_betweenTags (by decide) w)]
        rfl
      · have hn : betweenTags? none ('>' :: c :: s) = none := by
          simp [betweenTags?, char?_closeMark, Cut.spanSome?_neg (by simpa using hc)]
        rw [List.dropWhile_cons_of_neg hc, replaceAll_of_none contextFree_betweenTags hn]
  · rw [strip, if_neg hs, replaceAll_of_none contextFree_betweenTags (betweenTags?_of_no_mark hs)]

/-! ### White space at the ends -/

/-- No white space goes off the front of a text that begins with none. -/
theorem dropWhile_isBlank_eq_self {s : List Char} (h : ∀ c ∈ s.head?, isBlank c = false) :
    s.dropWhile isBlank = s := by
  cases s with
  | nil => rfl
  | cons c s => exact List.dropWhile_cons_of_neg (by simp [h c rfl])

theorem isBlank_of_mem_head?_dropWhile {s : List Char} {c : Char}
    (h : c ∈ (s.dropWhile isBlank).head?) : isBlank c = false := by
  have := List.head?_dropWhile_not isBlank s
  rw [Option.mem_def.1 h] at this
  simpa using this

theorem filter_takeWhile_isBlank (s : List Char) :
    ((s.takeWhile isBlank).filter fun c => !isBlank c) = [] := by
  simpa [List.filter_eq_nil_iff] using fun c hc => List.mem_takeWhile_imp hc

theorem filter_dropWhile_isBlank (s : List Char) :
    ((s.dropWhile isBlank).filter fun c => !isBlank c) = s.filter fun c => !isBlank c := by
  conv_rhs => rw [← List.takeWhile_append_dropWhile (p := isBlank) (l := s)]
  rw [List.filter_append, filter_takeWhile_isBlank, List.nil_append]

theorem filter_trim (s : List Char) :
    ((trim s).filter fun c => !isBlank c) = s.filter fun c => !isBlank c := by
  rw [trim, trimEnd, List.filter_reverse, filter_dropWhile_isBlank, ← List.filter_reverse,
    List.reverse_reverse, trimStart, filter_dropWhile_isBlank]

theorem isPrefix_trimEnd (s : List Char) : trimEnd s <+: s := List.rdropWhile_prefix isBlank s

theorem isInfix_trim (s : List Char) : trim s <:+: s :=
  (isPrefix_trimEnd _).isInfix.trans (List.dropWhile_suffix isBlank).isInfix

theorem isBlank_of_mem_head?_trim {s : List Char} {c : Char} (h : c ∈ (trim s).head?) :
    isBlank c = false := by
  obtain ⟨t, ht⟩ := List.head?_eq_some_iff.1 h
  obtain ⟨u, hu⟩ := isPrefix_trimEnd (trimStart s)
  refine isBlank_of_mem_head?_dropWhile (s := s) ?_
  rw [← trimStart, ← hu, ← trim, ht]
  rfl

theorem trim_trim (s : List Char) : trim (trim s) = trim s := by
  have hstart : trimStart (trim s) = trim s :=
    dropWhile_isBlank_eq_self fun c hc => isBlank_of_mem_head?_trim hc
  rw [trim, hstart]
  exact List.rdropWhile_idempotent isBlank _

theorem trim_append {c : Char} (hc : isBlank c = false) {u : List Char} (hu : EndsSolid (c :: u))
    (v : List Char) : trim (c :: u ++ v) = c :: u ++ trimEnd v := by
  obtain ⟨w, d, hw, hd⟩ := hu
  have hstart : trimStart (c :: u ++ v) = c :: u ++ v := by simp [trimStart, hc]
  rw [trim, hstart, trimEnd, trimEnd, hw]
  have hrev : (w ++ [d] ++ v).reverse = v.reverse ++ d :: w.reverse := by simp
  rw [hrev]
  have key : ∀ x : List Char, (x ++ d :: w.reverse).dropWhile isBlank =
      x.dropWhile isBlank ++ d :: w.reverse := by
    intro x
    induction x with
    | nil => simp [hd]
    | cons e x ih =>
      by_cases he : isBlank e = true
      · simp [he, ih]
      · simp [he]
  rw [key]
  simp

/-- What is trimmed off a text is white space. -/
theorem exists_trim_eq (s : List Char) : ∃ before after, s = before ++ trim s ++ after ∧
    (∀ c ∈ before, isBlank c = true) ∧ (∀ c ∈ after, isBlank c = true) := by
  refine ⟨s.takeWhile isBlank, ((trimStart s).reverse.takeWhile isBlank).reverse, ?_, ?_, ?_⟩
  · rw [trim, trimEnd, List.append_assoc, ← List.reverse_append, List.takeWhile_append_dropWhile,
      List.reverse_reverse, trimStart, List.takeWhile_append_dropWhile]
  · exact fun c hc => List.mem_takeWhile_imp hc
  · exact fun c hc => List.mem_takeWhile_imp (List.mem_reverse.1 hc)

theorem trim_of_solid {c : Char} (hc : isBlank c = false) {u before after : List Char}
    (hu : EndsSolid (c :: u)) (hb : ∀ d ∈ before, isBlank d = true)
    (ha : ∀ d ∈ after, isBlank d = true) : trim (before ++ c :: u ++ after) = c :: u := by
  have hstart : ∀ v, trim (before ++ v) = trim v := by
    intro v
    rw [trim, trim, trimStart, trimStart, List.dropWhile_append_of_pos hb]
  have hend : trimEnd after = [] := by
    rw [trimEnd, List.dropWhile_eq_nil_iff.2 fun d hd => ha d (List.mem_reverse.1 hd)]
    rfl
  rw [List.append_assoc, hstart, trim_append hc hu, hend, List.append_nil]

/-! ### Squeezed texts -/

/-- A blank is followed by no blank. -/
def Squeezed (a b : Char) : Prop := isBlank a = true → isBlank b = false

/-- All white space is spaces. -/
def Spaced (s : List Char) : Prop := ∀ c ∈ s, isBlank c = true → c = ' '

theorem squeezed_collapseFrom (b : Bool) (s : List Char) :
    (collapseFrom b s).IsChain Squeezed ∧
      (b = true → ∀ c ∈ (collapseFrom b s).head?, isBlank c = false) := by
  induction s generalizing b with
  | nil => simp [collapseFrom]
  | cons c s ih =>
    by_cases hc : isBlank c = true
    · cases b with
      | true => simpa [collapseFrom, hc] using ih true
      | false =>
        simp only [collapseFrom, hc, if_true, Bool.false_eq_true, if_false]
        exact ⟨(ih true).1.cons fun d hd _ => (ih true).2 rfl d hd, by simp⟩
    · simp only [collapseFrom, hc, Bool.false_eq_true, if_false]
      exact ⟨(ih false).1.cons fun d _ h => absurd h hc, by simp [hc]⟩

theorem spaced_collapseFrom (b : Bool) (s : List Char) : Spaced (collapseFrom b s) := by
  induction s generalizing b with
  | nil => simp [collapseFrom, Spaced]
  | cons c s ih =>
    intro d hd hblank
    unfold collapseFrom at hd
    split at hd
    · split at hd
      · exact ih true d hd hblank
      · rcases List.mem_cons.1 hd with rfl | hd
        · rfl
        · exact ih true d hd hblank
    · rcases List.mem_cons.1 hd with rfl | hd
      · exact absurd hblank ‹_›
      · exact ih false d hd hblank

theorem filter_collapseFrom (b : Bool) (s : List Char) :
    ((collapseFrom b s).filter fun c => !isBlank c) = s.filter fun c => !isBlank c := by
  have hspace : isBlank ' ' = true := by decide
  induction s generalizing b with
  | nil => rfl
  | cons c s ih =>
    by_cases hc : isBlank c = true
    · cases b <;> simp [collapseFrom, hc, hspace, ih]
    · simp [collapseFrom, hc, ih]

/-- Where no run is left there is nothing to collapse. -/
theorem collapse_eq_self {s : List Char} (hs : s.IsChain Squeezed) (h : Spaced s) :
    collapse s = s := by
  induction s with
  | nil => rfl
  | cons c s ih =>
    have hchain := List.isChain_cons.1 hs
    have ih := ih hchain.2 fun d hd => h d (by simp [hd])
    by_cases hc : isBlank c = true
    · rw [collapse_cons_of_blank hc, collapseFrom_true,
        dropWhile_isBlank_eq_self fun d hd => hchain.1 d hd hc, ih, h c (by simp) hc]
    · rw [collapse_cons_of_not_blank (by simpa using hc), ih]

/-- A collapsed text has no more runs to collapse. -/
theorem collapse_collapse (s : List Char) : collapse (collapse s) = collapse s :=
  collapse_eq_self (squeezed_collapseFrom false s).1 (spaced_collapseFrom false s)

end PagePress.Text
