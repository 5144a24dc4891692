import PagePress.Proofs.Stylesheet.Zeros

/-!
Compact stylesheets. They hold no characters of their own but a few marks (`mem_compact`). The passes
leave a mark, a space or a number in the place of what they take, so that apart from comments no two
other characters come to stand side by side: a word of such characters stands in the compact
stylesheet only if it stands in the stylesheet (`Firm.infix_of_compact`).
-/

namespace PagePress.Stylesheet

open Text

/-- A character that compacting may bring in. -/
def isFiller (c : Char) : Prop := c = ' ' ∨ c = ':' ∨ c = '\x7d'

theorem mem_of_mem_trim {s : List Char} {c : Char} (h : c ∈ trim s) : c ∈ s := by
  have h := List.mem_reverse.1 h
  have h := List.mem_reverse.1 ((List.dropWhile_suffix isBlank).mem h)
  exact (List.dropWhile_suffix isBlank).mem h

/-- A pass of compacting writes characters of the stylesheet and a few marks. -/
def Fills (r : Recognizer (List Char)) : Prop :=
  ∀ b t a (k : Cut t), r b t = some (a, k) → ∀ c ∈ a, c ∈ t ∨ isFiller c

/-- What holds of the characters of a text and of the marks holds of the characters that a pass
leaves. -/
theorem Fills.forall_replaceAll {r : Recognizer (List Char)} (hr : Fills r) {p : Char → Prop}
    (hp : ∀ c, isFiller c → p c) {s : List Char} (hs : ∀ c ∈ s, p c) : ∀ c ∈ replaceAll r s, p c := by
  intro c hc
  rcases mem_replaceAll hr hc with hc | hc
  · exact hs c hc
  · exact hp c hc

theorem fills_comment : Fills comment? := by
  intro b t a k hk d hd
  simp only [comment?, Option.bind_eq_bind, Option.bind_eq_some_iff, Option.pure_def,
    Option.some.injEq, Prod.mk.injEq] at hk
  obtain ⟨_, _, _, _, _, _, rfl, _⟩ := hk
  cases hd

theorem fills_blanks : Fills blanks? := by
  intro b t a k hk d hd
  obtain ⟨_, _, h⟩ := Option.map_eq_some_iff.1 hk
  obtain ⟨rfl, -⟩ := Prod.mk.inj h
  exact .inr (.inl (List.mem_singleton.1 hd))

theorem fills_punctuation : Fills punctuation? := by
  intro b t a k hk d hd
  simp only [punctuation?, Option.bind_eq_bind, Option.bind_eq_some_iff, Option.pure_def,
    Option.some.injEq, Prod.mk.injEq] at hk
  obtain ⟨mark, -, rfl, -⟩ := hk
  exact .inl ((Cut.span isBlank t).mem_of_mem_rest (mark.mem_of_mem_text hd))

theorem fills_colon : Fills colon? := by
  intro b t a k hk d hd
  simp only [colon?, Option.bind_eq_bind, Option.bind_eq_some_iff, Option.pure_def,
    Option.some.injEq, Prod.mk.injEq] at hk
  obtain ⟨_, _, _, _, rfl, _⟩ := hk
  exact .inr (.inr (.inl (List.mem_singleton.1 hd)))

theorem fills_lastSemicolon : Fills lastSemicolon? := by
  intro b t a k hk d hd
  obtain ⟨_, _, h⟩ := Option.map_eq_some_iff.1 hk
  obtain ⟨rfl, -⟩ := Prod.mk.inj h
  exact .inr (.inr (.inr (List.mem_singleton.1 hd)))

theorem fills_leadingZeros : Fills leadingZeros? := by
  intro b t a k hk d hd
  unfold leadingZeros? at hk
  split at hk
  · cases hk
  · simp only [Option.bind_eq_bind, Option.bind_eq_some_iff, Option.pure_def,
      Option.some.injEq, Prod.mk.injEq] at hk
    obtain ⟨zeros, -, point, -, digits, -, rfl, -⟩ := hk
    rcases List.mem_append.1 hd with hd | hd
    · exact .inl (zeros.mem_of_mem_rest (point.mem_of_mem_text hd))
    · exact .inl (zeros.mem_of_mem_rest (point.mem_of_mem_rest (digits.mem_of_mem_text hd)))

/-- What compacting writes stood in the stylesheet before or is one of a few marks. -/
theorem mem_compact {s : List Char} {c : Char} (h : c ∈ compact s) : c ∈ s ∨ isFiller c := by
  have hs : ∀ d ∈ s, d ∈ s ∨ isFiller d := fun _ => .inl
  have hcomment := fills_comment.forall_replaceAll (fun _ => .inr) hs
  have hblanks := fills_blanks.forall_replaceAll (fun _ => .inr) hcomment
  have hpunctuation := fills_punctuation.forall_replaceAll (fun _ => .inr) hblanks
  have hcolon := fills_colon.forall_replaceAll (fun _ => .inr) hpunctuation
  have hsemicolon := fills_lastSemicolon.forall_replaceAll (fun _ => .inr) hcolon
  exact fills_leadingZeros.forall_replaceAll (fun _ => .inr) hsemicolon c (mem_of_mem_trim h)

/-! ### Words -/

/-- A character that a pass may write: a space, a digit, or a mark that needs no space next to it. -/
def isLoose (c : Char) : Bool := isDigit c || [' ', '{', '}', ';', ',', '>', ':', '.'].contains c

/-- A pass leaves loose characters in the place of what it takes. -/
def Loosens (r : Recognizer (List Char)) : Prop :=
  ∀ {b t a} {k : Cut t}, r b t = some (a, k) → a ≠ [] ∧ ∀ c ∈ a, isLoose c = true

theorem loosens_blanks : Loosens blanks? := by
  intro b t a k hk
  obtain ⟨_, -, h⟩ := Option.map_eq_some_iff.1 hk
  obtain ⟨rfl, -⟩ := Prod.mk.inj h
  decide

theorem loosens_punctuation : Loosens punctuation? := by
  intro b t a k hk
  simp only [punctuation?, Option.bind_eq_bind, Option.bind_eq_some_iff, Option.pure_def,
    Option.some.injEq, Prod.mk.injEq] at hk
  obtain ⟨mark, hmark, rfl, -⟩ := hk
  obtain ⟨c, hc, htext⟩ := Cut.text_of_char? hmark
  have hall : ∀ c ∈ ['{', '}', ';', ',', '>'], isLoose c = true := by decide
  rw [htext]
  exact ⟨by simp, by simpa using hall c (List.contains_iff_mem.1 hc)⟩

theorem loosens_colon : Loosens colon? := by
  intro b t a k hk
  simp only [colon?, Option.bind_eq_bind, Option.bind_eq_some_iff, Option.pure_def,
    Option.some.injEq, Prod.mk.injEq] at hk
  obtain ⟨_, -, _, -, rfl, -⟩ := hk
  decide

theorem loosens_lastSemicolon : Loosens lastSemicolon? := by
  intro b t a k hk
  obtain ⟨_, -, h⟩ := Option.map_eq_some_iff.1 hk
  obtain ⟨rfl, -⟩ := Prod.mk.inj h
  decide

theorem loosens_leadingZeros : Loosens leadingZeros? := by
  intro b t a k hk
  obtain ⟨-, zs, d, ds, -, -, hdigits, rfl⟩ := leadingZeros?_eq_some hk
  refine ⟨by simp, fun c hc => ?_⟩
  rcases List.mem_cons.1 hc with rfl | hc
  · decide
  · simp [isLoose, hdigits c hc]

/-- A word of characters that no pass writes. -/
def Firm (w : List Char) : Prop := ∀ c ∈ w, isLoose c = false

section

variable {r : Recognizer (List Char)} {b : Option Char} {s w : List Char}

/-- A word at the front of what a pass leaves stood at the front before. -/
theorem Loosens.prefix_of_replaceFrom (hr : Loosens r) (hw : Firm w) (h : w <+: replaceFrom r b s) :
    w <+: s := by
  unfold replaceFrom at h
  fun_induction segmentsFrom r b s generalizing w with
  | case1 => exact h
  | case2 b c s _ ih | case3 b c s _ _ _ _ ih =>
    cases w with
    | nil => exact List.nil_prefix
    | cons d w =>
      obtain ⟨rfl, hrest⟩ := List.cons_prefix_cons.1 h
      exact List.cons_prefix_cons.2 ⟨rfl, ih (List.forall_mem_cons.1 hw).2 hrest⟩
  | case4 b c s a k hk _ _ _ =>
    -- the replacement begins with a loose character, and no word does
    obtain ⟨hne, hloose⟩ := hr hk
    cases w with
    | nil => exact List.nil_prefix
    | cons d w =>
      obtain ⟨e, a, rfl⟩ := List.exists_cons_of_ne_nil hne
      obtain ⟨rfl, -⟩ := List.cons_prefix_cons.1 h
      have hd := hw d (by simp)
      rw [hloose d (by simp)] at hd
      cases hd

/-- A word in what a pass leaves stood in the text before. -/
theorem Loosens.infix_of_replaceFrom (hr : Loosens r) (hw : Firm w) (hne : w ≠ [])
    (h : w <:+: replaceFrom r b s) : w <:+: s := by
  have hkept : ∀ {b c s}, (w <:+: replaceFrom r b s → w <:+: s) → w <:+: c :: replaceFrom r b s →
      w <:+: c :: s := by
    intro b c s ih h
    rcases List.infix_cons_iff.1 h with h | h
    · obtain ⟨d, w, rfl⟩ := List.exists_cons_of_ne_nil hne
      obtain ⟨rfl, hrest⟩ := List.cons_prefix_cons.1 h
      have hrest := hr.prefix_of_replaceFrom (List.forall_mem_cons.1 hw).2 hrest
      exact (List.cons_prefix_cons.2 ⟨rfl, hrest⟩).isInfix
    · exact List.infix_cons_iff.2 (.inr (ih h))
  unfold replaceFrom at h hkept
  fun_induction segmentsFrom r b s with
  | case1 => exact h
  | case2 b c s _ ih => exact hkept ih h
  | case3 b c s a k _ _ ih => exact hkept ih h
  | case4 b c s a k hk _ _ ih =>
    obtain ⟨-, hloose⟩ := hr hk
    rw [List.flatMap_cons] at h
    have hrest := infix_of_infix_append (p := fun c => !isLoose c) hne
      (fun c hc => by simp [hw c hc]) (fun c hc => by simp [hloose c hc]) h
    exact (ih hrest).trans k.rest_suffix.isInfix

theorem Loosens.infix_of_replaceAll (hr : Loosens r) (hw : Firm w) (hne : w ≠ [])
    (h : w <:+: replaceAll r s) : w <:+: s := hr.infix_of_replaceFrom (b := none) hw hne h

theorem replaceAll_comment?_eq_self (h : ¬ "/*".toList <:+: s) : replaceAll comment? s = s := by
  refine replaceAll_eq_self (fun _ _ => rfl) fun u hu => ?_
  cases hopening : Cut.word? "/*" u with
  | none => simp [comment?, hopening]
  | some k =>
    have hfront : "/*".toList <+: u := ⟨k.rest, by rw [← Cut.text_of_word? hopening, k.append_eq]⟩
    exact absurd (hfront.isInfix.trans hu.isInfix) h

/-- A word of firm characters that stands in a compact stylesheet stands in the stylesheet, if no
comment begins in it. -/
theorem Firm.infix_of_compact (hw : Firm w) (hs : ¬ "/*".toList <:+: s) (h : w <:+: compact s) :
    w <:+: s := by
  by_cases hne : w = []
  · rw [hne]
    exact List.nil_infix
  · have hzeros := loosens_leadingZeros.infix_of_replaceAll hw hne (h.trans (isInfix_trim _))
    have hsemicolon := loosens_lastSemicolon.infix_of_replaceAll hw hne hzeros
    have hcolon := loosens_colon.infix_of_replaceAll hw hne hsemicolon
    have hpunctuation := loosens_punctuation.infix_of_replaceAll hw hne hcolon
    have hblanks := loosens_blanks.infix_of_replaceAll hw hne hpunctuation
    rwa [replaceAll_comment?_eq_self hs] at hblanks

end

end PagePress.Stylesheet
