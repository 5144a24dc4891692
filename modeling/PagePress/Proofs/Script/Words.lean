import Mathlib.Data.List.Infix
import PagePress.Proofs.Script.Compact

/-!
Words of a compact script. Comments and white space go only next to the marks that separate tokens
by themselves, and leave a space or a newline between two other characters. So a word of characters
that are no such marks stands in the compact script only if it stands in the script
(`Firm.infix_of_compact`).
-/

namespace PagePress.Script

/-- White space that is written, and the marks next to which it is not. -/
def looseChars : List Char := ['{', ';', ',', '(', '[', '}', ')', ']', '=', ':', ' ', '\n']

/-- A character that is no white space, and next to which a gap is kept. -/
def isFirm (c : Char) : Bool := !looseChars.contains c

theorem isFirm_of_mem_separator {b : Option Char} {a c : Char} {gap : Gap} (h : c ∈ separator b a gap) :
    isFirm c = false := by
  rcases mem_separator h with rfl | rfl <;> decide

theorem separator_eq_text {b c : Char} (hb : isFirm b = true) (hc : isFirm c = true) (gap : Gap) :
    separator (some b) c gap = gap.text := by
  simp only [isFirm, looseChars, Bool.not_eq_true', List.contains_eq_mem, List.mem_cons, List.not_mem_nil,
    or_false, decide_eq_false_iff_not, not_or] at hb hc
  simp [separator, isOpener, isCloser, isTightAfter, isTightBefore, hb, hc]

theorem Gap.widen_ne_none (gap : Gap) (text : List Char) : gap.widen text ≠ .none := by
  unfold Gap.widen
  split
  · decide
  · split
    · decide
    · assumption

/-- What is written behind a firm character after a gap does not begin with another one. -/
theorem isFirm_of_head_joinFrom {b : Char} (hb : isFirm b = true) {gap : Gap} (hgap : gap ≠ .none)
    {ts : List Token} {d : Char} (h : (joinFrom (some b) gap ts).head? = some d) : isFirm d = false := by
  have hpiece : ∀ (gap : Gap) (c : Char) (v : List Char), gap ≠ .none →
      (separator (some b) c gap ++ c :: v).head? = some d → isFirm d = false := by
    intro gap c v hgap h
    cases hsep : separator (some b) c gap with
    | nil =>
      obtain rfl : c = d := by simpa [hsep] using h
      by_contra hc
      rw [separator_eq_text hb (by simpa using hc)] at hsep
      cases gap <;> simp [Gap.text] at hsep hgap
    | cons e u =>
      obtain rfl : e = d := by simpa [hsep] using h
      have hmem : e ∈ separator (some b) c gap := by simp [hsep]
      exact isFirm_of_mem_separator hmem
  generalize hbefore : some b = before at h
  fun_induction joinFrom before gap ts with
  | case1 => cases h
  | case2 before gap text rest ih => exact ih hgap hbefore h
  | case3 before gap text rest ih => exact ih (Gap.widen_ne_none gap text) hbefore h
  | case4 before gap text rest ih => exact ih (Gap.widen_ne_none gap text) hbefore h
  | case5 before gap rest ih => exact ih hgap hbefore h
  | case6 before gap rest c u ih =>
    subst hbefore
    rw [List.append_assoc, List.cons_append] at h
    exact hpiece gap c _ hgap h
  | case7 before gap c rest ih =>
    subst hbefore
    exact hpiece gap c _ hgap h

/-- A word of firm characters. -/
def Firm (w : List Char) : Prop := ∀ c ∈ w, isFirm c = true

variable {w : List Char}

theorem Firm.eq_nil_of_head {s : List Char} (hw : Firm w) (hs : ∀ d, s.head? = some d → isFirm d = false)
    (h : w <+: s) : w = [] := by
  cases w with
  | nil => rfl
  | cons c w =>
    obtain ⟨v, rfl⟩ := h
    have := hs c rfl
    rw [hw c (by simp)] at this
    cases this

/-- A word in front of two texts ends in the first one or goes on with the second one. -/
theorem Firm.prefix_append {u s t : List Char} (hw : Firm w) (hu : u ≠ [])
    (hs : ∀ b, u.getLast? = some b → isFirm b = true → ∀ v, Firm v → v <+: t → v <+: s)
    (h : w <+: u ++ t) : w <+: u ++ s := by
  rcases List.prefix_or_prefix_of_prefix h (List.prefix_append u t) with h' | ⟨v, rfl⟩
  · exact h'.trans (List.prefix_append _ _)
  · have hv : v <+: t := (List.prefix_append_right_inj _).1 h
    have hlast : isFirm (u.getLast hu) = true := hw _ (List.mem_append_left _ (List.getLast_mem hu))
    have hfirm : Firm v := fun d hd => hw d (List.mem_append_right _ hd)
    exact (List.prefix_append_right_inj _).2
      (hs _ (List.getLast?_eq_some_getLast hu) hlast v hfirm hv)

/-- No word is written behind a firm character after a gap. -/
theorem Firm.eq_nil_of_gap {b : Char} (hb : isFirm b = true) (hw : Firm w) {gap : Gap} (hgap : gap ≠ .none)
    {ts : List Token} (h : w <+: joinFrom (some b) gap ts) : w = [] :=
  hw.eq_nil_of_head (fun _ hd => isFirm_of_head_joinFrom hb hgap hd) h

/-- A word that is written behind a firm character stood behind it before. -/
theorem Firm.prefix_of_joinFrom {s : List Char} {b : Char} (hb : isFirm b = true) (hw : Firm w)
    (h : w <+: joinFrom (some b) .none (tokens s)) : w <+: s := by
  fun_induction tokens s generalizing w b with
  | case1 => exact h
  | case2 rest _ ih =>
    -- A comment ends before a newline, with which no word begins.
    have hnil := hw.eq_nil_of_head (fun d hd => ?_) (ih hb hw h)
    · rw [hnil]
      exact List.nil_prefix
    · have := List.head?_dropWhile_not (· != '\n') rest
      rw [hd] at this
      obtain rfl : d = '\n' := by simpa using this
      decide
  | case3 rest _ ih =>
    rw [hw.eq_nil_of_gap hb (Gap.widen_ne_none _ _) h]
    exact List.nil_prefix
  | case4 c rest _ _ _ _ ih =>
    rw [joinFrom, separator_none, List.nil_append] at h
    rw [← literalRest_append c rest, ← List.cons_append]
    refine hw.prefix_append (by simp) (fun b' hb' hfirm v hv hpre => ?_) h
    rw [hb', Option.some_or] at hpre
    exact ih hfirm hv hpre
  | case5 c rest _ _ _ _ _ ih =>
    rw [hw.eq_nil_of_gap hb (Gap.widen_ne_none _ _) h]
    exact List.nil_prefix
  | case6 c rest _ _ _ _ ih =>
    rw [joinFrom, separator_none, List.nil_append] at h
    refine hw.prefix_append (u := [c]) (by simp) (fun b' hb' hfirm v hv hpre => ?_) h
    obtain rfl : c = b' := by simpa using hb'
    exact ih hfirm hv hpre

/-- A word that stands somewhere from white space on stands in the first one of two texts, or where
the second one begins, or behind this place. -/
theorem Firm.infix_append {u x s t : List Char} (hw : Firm w) (hne : w ≠ []) (hu : u ≠ [])
    (hx : ∀ c ∈ x, isFirm c = false)
    (hpre : ∀ b, u.getLast? = some b → isFirm b = true → ∀ v, Firm v → v <+: t → v <+: s)
    (hs : w <:+: t → w <:+: s) (h : w <:+: x ++ (u ++ t)) : w <:+: u ++ s := by
  have hbehind : w <:+: u ++ t := Text.infix_of_infix_append hne hw hx h
  rcases List.infix_append_iff.1 hbehind with h | h | ⟨v, v', rfl, hv, hv'⟩
  · exact h.trans (List.prefix_append _ _).isInfix
  · exact (hs h).trans (List.suffix_append _ _).isInfix
  · cases v using List.reverseRecOn with
    | nil => exact (hs hv'.isInfix).trans (List.suffix_append _ _).isInfix
    | append_singleton v b =>
      have hlast : u.getLast? = some b := by
        obtain ⟨y, rfl⟩ := hv
        simp
      have hbs := hpre b hlast (hw b (by simp)) v' (fun d hd => hw d (List.mem_append_right _ hd)) hv'
      obtain ⟨y, rfl⟩ := hv
      obtain ⟨z, rfl⟩ := hbs
      exact ⟨y, z, by simp⟩

/-- A word that is written stood in the script before. -/
theorem Firm.infix_of_joinFrom {s : List Char} (hw : Firm w) (hne : w ≠ []) {before : Option Char}
    {gap : Gap} (h : w <:+: joinFrom before gap (tokens s)) : w <:+: s := by
  fun_induction tokens s generalizing before gap with
  | case1 => exact h
  | case2 rest _ ih =>
    have hrest := (ih h).trans (List.dropWhile_suffix _).isInfix
    exact hrest.trans (List.suffix_append ['/', '/'] rest).isInfix
  | case3 rest _ ih =>
    have hrest := (ih h).trans ⟨_, [], (List.append_nil _).trans (commentRest_append rest)⟩
    exact hrest.trans (List.suffix_append ['/', '*'] rest).isInfix
  | case4 c rest _ _ _ _ ih =>
    rw [joinFrom, List.append_assoc] at h
    rw [← literalRest_append c rest, ← List.cons_append]
    refine hw.infix_append hne (by simp) (fun _ => isFirm_of_mem_separator)
      (fun b hb hfirm v hv hpre => ?_) ih h
    rw [hb, Option.some_or] at hpre
    exact hv.prefix_of_joinFrom hfirm hpre
  | case5 c rest _ _ _ _ _ ih =>
    have hrest := (ih h).trans (List.dropWhile_suffix _).isInfix
    exact hrest.trans (List.suffix_cons c rest).isInfix
  | case6 c rest _ _ _ _ ih =>
    rw [joinFrom] at h
    refine hw.infix_append (u := [c]) hne (by simp) (fun _ => isFirm_of_mem_separator)
      (fun b hb hfirm v hv hpre => ?_) ih h
    obtain rfl : c = b := by simpa using hb
    exact hv.prefix_of_joinFrom hfirm hpre

/-- A word of firm characters that stands in a compact script stands in the script. -/
theorem Firm.infix_of_compact {s : List Char} (hw : Firm w) (h : w <:+: compact s) : w <:+: s := by
  by_cases hne : w = []
  · rw [hne]
    exact List.nil_infix
  · exact hw.infix_of_joinFrom hne h

end PagePress.Script
