import PagePress.Proofs.Embed
import PagePress.Proofs.Markup.Spelled
import PagePress.Proofs.Reduce.Blanks
import PagePress.Proofs.Text.Case
import PagePress.Reduce.Attributes

/-!
Attributes without a value. The scan of an opening tag drops the attributes whose value is empty,
`alt` apart, however they are spelt (`replaceAll_spelledAttrs`), and cleans each other value by itself
(`cleanse`): what looks like an empty attribute inside a value goes from the value, but does not reach
beyond its quote.
-/

namespace PagePress.Markup

open Text Html

/-! ### Values -/

/-- A value without what looks like an empty attribute in it. -/
def cleanse (v : List Char) : List Char := replaceAll Reduce.emptyAttribute? v

theorem contextFree_emptyAttribute : ContextFree Reduce.emptyAttribute? := fun _ _ => rfl

theorem emptyAttribute?_of_not_blank {c : Char} (h : isBlank c = false) (s : List Char) :
    Reduce.emptyAttribute? none (c :: s) = none := by
  simp [Reduce.emptyAttribute?, Cut.spanSome?_neg h]

theorem emptyValue?_some {s : List Char} {k : Cut s} (h : Reduce.emptyValue? s = some k) :
    ∃ q, (q = '"' ∨ q = '\'') ∧ k.text = [q, q] := by
  cases hdouble : Cut.word? "\"\"" s with
  | some k' =>
    rw [Reduce.emptyValue?, hdouble, Option.orElse_some, Option.some.injEq] at h
    exact ⟨'"', .inl rfl, h ▸ Cut.text_of_word? hdouble⟩
  | none =>
    rw [Reduce.emptyValue?, hdouble, Option.orElse_none] at h
    exact ⟨'\'', .inr rfl, Cut.text_of_word? h⟩

theorem emptyValue?_gives {q : Char} (hq : q = '"' ∨ q = '\'') {s v : List Char} (hs : s = q :: q :: v) :
    Cut.Gives (Reduce.emptyValue? s) [q, q] v := by
  rcases hq with rfl | rfl
  · obtain ⟨k, hk, htext, hrest⟩ := Cut.word?_gives (w := "\"\"") (v := v) hs
    exact ⟨k, by rw [Reduce.emptyValue?, hk, Option.orElse_some], htext, hrest⟩
  · obtain ⟨k, hk, htext, hrest⟩ := Cut.word?_gives (w := "\'\'") (v := v) hs
    refine ⟨k, ?_, htext, hrest⟩
    have hdouble : Cut.word? "\"\"" s = none := by
      rw [hs]
      rfl
    rw [Reduce.emptyValue?, hdouble, Option.orElse_none, hk]

section

variable {q : Char} (hq : q = '"' ∨ q = '\'') {s t : List Char} (hs : q ∉ s) (ht : t.head? ≠ some q)
include hq hs ht

theorem emptyValue?_extend :
    Reduce.emptyValue? (s ++ q :: t) = (Reduce.emptyValue? s).map (Cut.extend · (q :: t)) := by
  have hcross : ('"' == '\'') = false ∧ ('\'' == '"') = false := by decide
  rcases s with _ | ⟨c, _ | ⟨d, s⟩⟩
  · rcases t with _ | ⟨e, t⟩
    · rcases hq with rfl | rfl <;> rfl
    · have he : (q == e) = false := beq_false_of_ne fun h => ht (by rw [← h]; rfl)
      rcases hq with rfl | rfl <;> simp [Reduce.emptyValue?, Cut.word?, Cut.wordBy?, he]
  · have hc : (q == c) = false := beq_false_of_ne (List.ne_of_not_mem_cons hs)
    rcases hq with rfl | rfl <;> simp [Reduce.emptyValue?, Cut.word?, Cut.wordBy?, hc]
  · have hc : (q == c) = false := beq_false_of_ne (List.ne_of_not_mem_cons hs)
    rcases hq with rfl | rfl
    · by_cases h1 : ('\'' == c) = true
      · by_cases h2 : ('\'' == d) = true
        · simp [Reduce.emptyValue?, Cut.word?, Cut.wordBy?, hc, h1, h2, Cut.extend, Cut.start]
        · simp [Reduce.emptyValue?, Cut.word?, Cut.wordBy?, hc, h1, h2]
      · simp [Reduce.emptyValue?, Cut.word?, Cut.wordBy?, hc, h1]
    · by_cases h1 : ('"' == c) = true
      · by_cases h2 : ('"' == d) = true
        · simp [Reduce.emptyValue?, Cut.word?, Cut.wordBy?, h1, h2, Cut.extend, Cut.start]
        · simp [Reduce.emptyValue?, Cut.word?, Cut.wordBy?, hc, h1, h2]
      · simp [Reduce.emptyValue?, Cut.word?, Cut.wordBy?, hc, h1]

/-- What is recognised in a value ends in the value. -/
theorem emptyAttribute?_extend :
    Reduce.emptyAttribute? none (s ++ q :: t) =
      (Reduce.emptyAttribute? none s).map fun x => (x.1, x.2.extend (q :: t)) := by
  have hfacts : isBlank q = false ∧ Reduce.isNameChar q = false ∧ (q == '=') = false := by
    rcases hq with rfl | rfl <;> decide
  obtain ⟨hblank, hname, hequals⟩ := hfacts
  have hspan : ∀ u, Cut.span isBlank (u ++ q :: t) = (Cut.span isBlank u).extend (q :: t) :=
    fun u => Cut.span_extend hblank u t
  refine Cut.bind_extend (Cut.spanSome?_extend hblank s t) fun k1 => ?_
  refine Cut.bind_extend (Cut.spanSome?_extend hname k1.rest t) fun k2 => ?_
  rw [show Cut.span isBlank (k2.extend (q :: t)).rest =
    (Cut.span isBlank k2.rest).extend (q :: t) from hspan k2.rest]
  refine Cut.bind_extend (Cut.char?_extend (p := (· == '=')) hequals (Cut.span isBlank k2.rest).rest t) fun k3 => ?_
  rw [show Cut.span isBlank (k3.extend (q :: t)).rest =
    (Cut.span isBlank k3.rest).extend (q :: t) from hspan k3.rest]
  have hrest : q ∉ (Cut.span isBlank k3.rest).rest := fun hm => hs <|
    k1.mem_of_mem_rest <| k2.mem_of_mem_rest <| (Cut.span isBlank k2.rest).mem_of_mem_rest <|
      k3.mem_of_mem_rest <| (Cut.span isBlank k3.rest).mem_of_mem_rest hm
  refine Cut.bind_extend (emptyValue?_extend hq hrest ht) fun k4 => ?_
  rfl

theorem replaceAll_value :
    replaceAll Reduce.emptyAttribute? (s ++ q :: t) =
      cleanse s ++ q :: replaceAll Reduce.emptyAttribute? t := by
  have hblank : isBlank q = false := by rcases hq with rfl | rfl <;> decide
  rw [replaceAll_append_of_extend contextFree_emptyAttribute fun u hu =>
    emptyAttribute?_extend hq (fun hm => hs (hu.mem hm)) ht]
  rw [replaceAll_of_none contextFree_emptyAttribute (emptyAttribute?_of_not_blank hblank t)]
  rfl

end

theorem mem_of_mem_emptyAttribute? {b : Option Char} {t a : List Char} {k : Cut t}
    (h : Reduce.emptyAttribute? b t = some (a, k)) {c : Char} (hc : c ∈ a) : c ∈ t := by
  simp only [Reduce.emptyAttribute?, Option.bind_eq_bind, Option.bind_eq_some_iff, Option.pure_def,
    Option.some.injEq, Prod.mk.injEq] at h
  obtain ⟨_, -, _, -, _, -, _, -, rfl, -⟩ := h
  split at hc
  · exact Cut.mem_of_mem_text _ hc
  · cases hc

theorem mem_cleanse {v : List Char} {c : Char} (h : c ∈ cleanse v) : c ∈ v := by
  rcases mem_replaceAll (p := fun _ => False)
    (fun b t a k hk d hd => .inl (mem_of_mem_emptyAttribute? hk hd)) h with h | h
  · exact h
  · exact h.elim

theorem emptyValue?_of_first {c : Char} (h1 : c ≠ '"') (h2 : c ≠ '\'') (s : List Char) :
    Reduce.emptyValue? (c :: s) = none := by
  simp [Reduce.emptyValue?, Cut.word?, Cut.wordBy?, beq_false_of_ne h1.symm, beq_false_of_ne h2.symm]

/-- Two quotation marks are needed for an empty value. -/
theorem emptyValue?_of_not_mem {s : List Char} (h1 : '"' ∉ s) (h2 : '\'' ∉ s) :
    Reduce.emptyValue? s = none := by
  cases s with
  | nil => rfl
  | cons c s =>
    exact emptyValue?_of_first (List.ne_of_not_mem_cons h1).symm (List.ne_of_not_mem_cons h2).symm s

/-- No sign of equality has an empty value behind it. -/
def Steady (v : List Char) : Prop :=
  ∀ w, '=' :: w <:+ v → Reduce.emptyValue? (w.dropWhile isBlank) = none

/-- A steady value holds nothing that looks like an empty attribute. -/
theorem cleanse_of_steady {v : List Char} (h : Steady v) : cleanse v = v := by
  refine replaceAll_eq_self contextFree_emptyAttribute fun u hu => ?_
  cases he : Reduce.emptyAttribute? none u with
  | none => rfl
  | some x =>
    obtain ⟨a, k⟩ := x
    simp only [Reduce.emptyAttribute?, Option.bind_eq_bind, Option.bind_eq_some_iff, Option.pure_def]
      at he
    obtain ⟨k1, -, k2, -, k3, h3, k4, h4, -⟩ := he
    obtain ⟨c, hc, hs⟩ := Cut.eq_cons_of_char? h3
    obtain rfl : c = '=' := by simpa using hc
    have hsuffix : '=' :: k3.rest <:+ v := hs ▸ (Cut.span isBlank k2.rest).rest_suffix.trans
      (k2.rest_suffix.trans (k1.rest_suffix.trans hu))
    have hnone : Reduce.emptyValue? (Cut.span isBlank k3.rest).rest = none := h k3.rest hsuffix
    rw [hnone] at h4
    cases h4

theorem steady_of_not_mem {v : List Char} (h1 : '"' ∉ v) (h2 : '\'' ∉ v) : Steady v := by
  intro w hw
  have hrest : ∀ c, c ∉ v → c ∉ w.dropWhile isBlank := fun c hc hm =>
    hc (hw.mem (List.mem_cons_of_mem _ ((List.dropWhile_suffix _).mem hm)))
  exact emptyValue?_of_not_mem (hrest _ h1) (hrest _ h2)

/-- A text without quotation marks may stand before a text that does not begin with two. -/
theorem emptyValue?_append {u b : List Char} (h1 : '"' ∉ u) (h2 : '\'' ∉ u)
    (hb : Reduce.emptyValue? (b.dropWhile isBlank) = none) :
    Reduce.emptyValue? ((u ++ b).dropWhile isBlank) = none := by
  by_cases hall : ∀ d ∈ u, isBlank d = true
  · rwa [List.dropWhile_append_of_pos hall]
  · have hne : u.dropWhile isBlank ≠ [] := by simpa [List.dropWhile_eq_nil_iff] using hall
    obtain ⟨d, x, hx⟩ := List.exists_cons_of_ne_nil hne
    have hdrop : (u ++ b).dropWhile isBlank = d :: (x ++ b) := by
      rw [List.dropWhile_append, hx]
      rfl
    have hmem : d ∈ u := (List.dropWhile_suffix isBlank).mem (hx ▸ List.mem_cons_self ..)
    rw [hdrop]
    exact emptyValue?_of_first (ne_of_mem_of_not_mem hmem h1) (ne_of_mem_of_not_mem hmem h2) _

/-- A text between apostrophes is steady when nothing around it is a sign of equality. -/
theorem steady_between {a u b : List Char} (ha : '=' ∉ a) (h1 : '"' ∉ u) (h2 : '\'' ∉ u)
    (hb : '=' ∉ b) (hmark : Reduce.emptyValue? (b.dropWhile isBlank) = none) :
    Steady (a ++ (u ++ b)) := by
  intro w hw
  obtain ⟨x, hx⟩ := suffix_of_suffix_append ha hw
  rcases List.append_eq_append_iff.1 hx with ⟨y, rfl, hy⟩ | ⟨y, -, rfl⟩
  · cases y with
    | nil => exact absurd (by rw [← show '=' :: w = b from hy]; simp) hb
    | cons c y =>
      obtain rfl : w = y ++ b := (List.cons.inj hy).2
      exact emptyValue?_append (fun hm => h1 (by simp [hm])) (fun hm => h2 (by simp [hm])) hmark
  · exact absurd (by simp) hb

/-- A value without apostrophes holds nothing that looks like an empty attribute. -/
theorem cleanse_of_not_mem {v : List Char} (h1 : '"' ∉ v) (h2 : '\'' ∉ v) : cleanse v = v :=
  cleanse_of_steady (steady_of_not_mem h1 h2)

/-! ### Attributes -/

/-- A text begins with an attribute whose value is empty. -/
def BeginsEmpty (s : List Char) : Prop :=
  ∃ n l r q v, s = n ++ (l ++ '=' :: (r ++ q :: q :: v)) ∧ n ≠ [] ∧
    (∀ c ∈ n, Reduce.isNameChar c = true) ∧ (∀ c ∈ l, isBlank c = true) ∧ (∀ c ∈ r, isBlank c = true) ∧
      (q = '"' ∨ q = '\'')

theorem isAttrChar_of_isReduceNameChar {c : Char} (h : Reduce.isNameChar c = true) : isAttrChar c = true := by
  have hmarks : ∀ d ∈ ['"', '\'', '<', '>', '/', '='], Reduce.isNameChar d = false := by decide
  have hmem : c ∉ ['"', '\'', '<', '>', '/', '='] := fun hm => by
    rw [hmarks c hm] at h
    cases h
  have hblank : isBlank c = false := by
    by_contra hc
    have hc : isBlank c = true := by simpa using hc
    have hrest : ∀ d ∈ [':', '.', '-'], isBlank d = false := by decide
    simp only [Reduce.isNameChar, isWord_of_isBlank hc, Bool.false_or, Bool.or_eq_true, beq_iff_eq] at h
    rw [hrest c (by simp; tauto)] at hc
    cases hc
  simp [isAttrChar, hblank, hmem]

/-- An attribute with an empty value is recognised with the white space before it. -/
theorem emptyAttribute?_gives {w n l r v : List Char} {q : Char} {s : List Char}
    (hs : s = w ++ (n ++ (l ++ '=' :: (r ++ q :: q :: v)))) (hwne : w ≠ [])
    (hw : ∀ c ∈ w, isBlank c = true) (hnne : n ≠ []) (hn : ∀ c ∈ n, Reduce.isNameChar c = true)
    (hl : ∀ c ∈ l, isBlank c = true) (hr : ∀ c ∈ r, isBlank c = true) (hq : q = '"' ∨ q = '\'') :
    ∃ k, Reduce.emptyAttribute? none s = some (if lower n = "alt".toList then k.text else [], k) ∧
      k.text = w ++ (n ++ (l ++ '=' :: (r ++ [q, q]))) ∧ k.rest = v := by
  obtain ⟨c, w, rfl⟩ := List.exists_cons_of_ne_nil hwne
  obtain ⟨d, n, rfl⟩ := List.exists_cons_of_ne_nil hnne
  have hquote : isBlank q = false := by rcases hq with rfl | rfl <;> decide
  have hequals : isBlank '=' = false ∧ Reduce.isNameChar '=' = false := by decide
  obtain ⟨k1, h1, t1, r1⟩ := Cut.spanSome?_gives hs hw fun e x hx => by
    obtain ⟨rfl, -⟩ := List.cons.inj hx
    exact not_blank_of_isAttrChar (isAttrChar_of_isReduceNameChar (hn d (by simp)))
  obtain ⟨k2, h2, t2, r2⟩ := Cut.spanSome?_gives r1 hn fun e x hx => by
    cases l with
    | nil =>
      obtain ⟨rfl, -⟩ := List.cons.inj hx
      exact hequals.2
    | cons e' l =>
      obtain ⟨rfl, -⟩ := List.cons.inj hx
      by_contra hname
      have hblank := not_blank_of_isAttrChar (isAttrChar_of_isReduceNameChar (by simpa using hname))
      rw [hl e' (by simp)] at hblank
      cases hblank
  obtain ⟨l2, d2⟩ := Cut.span_gives_cons r2 hl hequals.1
  obtain ⟨k3, h3, t3, r3⟩ := Cut.char?_gives (p := (· == '=')) d2 (by decide)
  obtain ⟨l3, d3⟩ := Cut.span_gives_cons r3 hr hquote
  obtain ⟨k4, h4, t4, r4⟩ := emptyValue?_gives hq d3
  refine ⟨((((k1.andThen k2).andThen (Cut.span isBlank k2.rest)).andThen k3).andThen
    (Cut.span isBlank k3.rest)).andThen k4, ?_, ?_, r4⟩
  · simp only [Reduce.emptyAttribute?, h1, h2, h3, h4, t2, Option.bind_eq_bind, Option.bind_some,
      Option.pure_def, beq_iff_eq]
  · show ((((k1.text ++ k2.text) ++ (Cut.span isBlank k2.rest).text) ++ k3.text) ++
      (Cut.span isBlank k3.rest).text) ++ k4.text = _
    rw [l2, l3, t1, t2, t3, t4]
    simp

/-- What is recognised is white space and an attribute with an empty value. -/
theorem exists_of_emptyAttribute? {b : Option Char} {s a : List Char} {k : Cut s}
    (h : Reduce.emptyAttribute? b s = some (a, k)) :
    ∃ c w u, s = c :: w ++ u ∧ (∀ d ∈ c :: w, isBlank d = true) ∧ BeginsEmpty u := by
  simp only [Reduce.emptyAttribute?, Option.bind_eq_bind, Option.bind_eq_some_iff, Option.pure_def,
    Option.some.injEq, Prod.mk.injEq] at h
  obtain ⟨k1, h1, k2, h2, k3, h3, k4, h4, -⟩ := h
  obtain ⟨c, w, t1, hw⟩ := Cut.spanSome?_eq_some h1
  obtain ⟨d, n, t2, hn⟩ := Cut.spanSome?_eq_some h2
  obtain ⟨e, he, r2⟩ := Cut.eq_cons_of_char? h3
  obtain rfl : e = '=' := by simpa using he
  obtain ⟨q, hq, t4⟩ := emptyValue?_some h4
  refine ⟨c, w, k1.rest, by rw [← t1, k1.append_eq], hw, d :: n, k2.rest.takeWhile isBlank,
    k3.rest.takeWhile isBlank, q, k4.rest, ?_, by simp, hn, fun x hx => List.mem_takeWhile_imp hx,
    fun x hx => List.mem_takeWhile_imp hx, hq⟩
  have r3 : k3.rest.dropWhile isBlank = q :: q :: k4.rest := by
    have := k4.append_eq
    rw [t4] at this
    exact this.symm
  have r2 : k2.rest.dropWhile isBlank = '=' :: k3.rest := r2
  rw [← r3, List.takeWhile_append_dropWhile, ← r2, List.takeWhile_append_dropWhile, ← t2, k2.append_eq]

theorem replaceAll_solid {u : List Char} (hu : ∀ c ∈ u, isBlank c = false) (t : List Char) :
    replaceAll Reduce.emptyAttribute? (u ++ t) = u ++ replaceAll Reduce.emptyAttribute? t := by
  induction u with
  | nil => rfl
  | cons c u ih =>
    rw [List.cons_append, replaceAll_of_none contextFree_emptyAttribute
      (emptyAttribute?_of_not_blank (hu c (by simp)) _), ih fun d hd => hu d (by simp [hd])]
    rfl

theorem not_blank_head {c : Char} (hc : isBlank c = false) (x : List Char) :
    ∀ d y, c :: x = d :: y → isBlank d = false := by
  rintro d y hd
  rwa [← (List.cons.inj hd).1]

theorem BeginsEmpty.head {s : List Char} (h : BeginsEmpty s) :
    ∃ c x, s = c :: x ∧ Reduce.isNameChar c = true := by
  obtain ⟨n, l, r, q, v, rfl, hne, hn, -⟩ := h
  obtain ⟨c, n, rfl⟩ := List.exists_cons_of_ne_nil hne
  exact ⟨c, _, rfl, hn c (by simp)⟩

theorem not_beginsEmpty_cons {c : Char} (h : Reduce.isNameChar c = false) (s : List Char) :
    ¬ BeginsEmpty (c :: s) := by
  intro hs
  obtain ⟨d, x, hcons, hd⟩ := hs.head
  obtain ⟨rfl, -⟩ := List.cons.inj hcons
  rw [h] at hd
  cases hd

/-- White space stays before what is no attribute with an empty value. -/
theorem replaceAll_blanks {w u : List Char} (hw : ∀ c ∈ w, isBlank c = true)
    (hu : ∀ d x, u = d :: x → isBlank d = false) (h : ¬ BeginsEmpty u) :
    replaceAll Reduce.emptyAttribute? (w ++ u) = w ++ replaceAll Reduce.emptyAttribute? u := by
  induction w with
  | nil => rfl
  | cons c w ih =>
    have hnone : Reduce.emptyAttribute? none (c :: (w ++ u)) = none := by
      by_contra hne
      obtain ⟨⟨a, k⟩, hk⟩ := Option.ne_none_iff_exists'.1 hne
      obtain ⟨d, w', u', hcut, hw', hempty⟩ := exists_of_emptyAttribute? hk
      obtain ⟨-, rfl⟩ := eq_and_eq_of_append hw hw' hu (fun e x he => by
        obtain ⟨e', x', he', hname⟩ := hempty.head
        rw [he] at he'
        obtain ⟨rfl, -⟩ := List.cons.inj he'
        exact not_blank_of_isAttrChar (isAttrChar_of_isReduceNameChar hname)) hcut
      exact h hempty
    rw [List.cons_append, replaceAll_of_none contextFree_emptyAttribute hnone,
      ih fun d hd => hw d (by simp [hd])]
    rfl

/-! ### Spelt attributes -/

theorem isNameChar_of_endsAttr {w v : List Char} {c : Char} (hw : EndsAttr w) (h : w = c :: v) :
    Reduce.isNameChar c = false := by
  by_contra hc
  have := hw.not_attrChar c v h
  rw [isAttrChar_of_isReduceNameChar (by simpa using hc)] at this
  cases this

/-- Behind the end of an attribute stands neither a sign of equality nor a quote. -/
theorem EndsAttr.not_mem {w u v : List Char} (hw : EndsAttr w) (hu : ∀ c ∈ u, isBlank c = true) {d : Char}
    (hd : isBlank d = false) (hmem : d ∈ ['=', '"', '\'']) : w ≠ u ++ d :: v := by
  rintro rfl
  obtain ⟨c, x, hdrop, hc⟩ := hw.dropWhile_eq
  rw [List.dropWhile_append_of_pos hu, List.dropWhile_cons_of_neg (by simp [hd])] at hdrop
  exact hc ((List.cons.inj hdrop).1 ▸ hmem)

/-- No attribute with an empty value is seen where a value without quotes stands. -/
theorem not_beginsEmpty_unquoted {v w : List Char} (hv : ∀ c ∈ v, isBlank c = false ∧ c ∉ ['>', '"', '\''])
    (hw : EndsAttr w) : ¬ BeginsEmpty (v ++ w) := by
  rintro ⟨n, l, r, q, x, hcut, -, hn, hl, hr, hq⟩
  have hquote : isBlank q = false ∧ q ∈ ['=', '"', '\''] := by rcases hq with rfl | rfl <;> decide
  have hqv : q ∉ v := fun hm => (hv q hm).2 (by rcases hq with rfl | rfl <;> simp)
  obtain ⟨z, hz, hwz⟩ := exists_of_append_eq hqv
    (hcut.trans (by simp : _ = n ++ l ++ '=' :: r ++ q :: (q :: x)))
  rcases List.append_eq_append_iff.1 hz with ⟨y, rfl, hy⟩ | ⟨y, hy, rfl⟩
  · cases y with
    | nil =>
      obtain rfl : '=' :: r = z := hy
      exact hw.not_mem (u := []) (by simp) (by decide) (by decide) hwz
    | cons e y =>
      obtain ⟨-, rfl⟩ := List.cons.inj hy
      exact hw.not_mem (fun c hc => hr c (List.mem_append_right _ hc)) hquote.1 hquote.2 hwz
  · rw [List.append_assoc, List.cons_append] at hwz
    cases y with
    | nil => exact hw.not_mem (u := []) (by simp) (by decide) (by decide) hwz
    | cons d y =>
      have hd : d ∉ n := fun hm => by
        have := isNameChar_of_endsAttr hw hwz
        rw [hn d hm] at this
        cases this
      have hsuffix : d :: y <:+ l := suffix_of_suffix_append hd ⟨v, hy.symm⟩
      exact hw.not_mem (fun c hc => hl c (hsuffix.mem hc)) (by decide) (by decide) hwz

variable {a : SpelledAttr}

/-- A name ends where white space or a sign of equality begins. -/
theorem isAttrChar_of_blanks {l x : List Char} (hl : ∀ c ∈ l, isBlank c = true) :
    ∀ c y, l ++ '=' :: x = c :: y → isAttrChar c = false := by
  rintro c y h
  cases l with
  | nil =>
    obtain ⟨rfl, -⟩ := List.cons.inj h
    decide
  | cons d l =>
    obtain ⟨rfl, -⟩ := List.cons.inj h
    simp [isAttrChar, hl d (by simp)]

theorem Spelling.WellFormed.not_attrChar {s : Spelling} (hs : s.WellFormed) {w : List Char} (hw : EndsAttr w) :
    ∀ c y, s.text ++ w = c :: y → isAttrChar c = false := by
  cases s with
  | bare => exact hw.not_attrChar
  | unquoted left right v =>
    rw [text, List.append_assoc]
    exact isAttrChar_of_blanks hs.1
  | quoted mark left right v =>
    rw [text, List.append_assoc]
    exact isAttrChar_of_blanks hs.1

/-- The first character behind white space is the same however the text is cut. -/
theorem cons_inj_of_blanks {l l' x x' : List Char} {c c' : Char} (hl : ∀ d ∈ l, isBlank d = true)
    (hl' : ∀ d ∈ l', isBlank d = true) (hc : isBlank c = false) (hc' : isBlank c' = false)
    (h : l ++ c :: x = l' ++ c' :: x') : c = c' ∧ x = x' := by
  exact List.cons.inj (eq_and_eq_of_append hl hl' (not_blank_head hc x) (not_blank_head hc' x') h).2

/-- An attribute is seen to have an empty value only if it has. -/
theorem of_beginsEmpty (ha : a.WellFormed) {w : List Char} (hw : EndsAttr w) (h : BeginsEmpty (a.body ++ w)) :
    a.spelling.value = some [] ∧ ∀ c ∈ a.name, Reduce.isNameChar c = true := by
  obtain ⟨n, l, r, q, x, hcut, -, hn, hl, hr, hq⟩ := h
  have hquote : isBlank q = false ∧ q ∈ ['>', '"', '\''] := by rcases hq with rfl | rfl <;> decide
  rw [SpelledAttr.body, List.append_assoc] at hcut
  obtain ⟨hname, hrest⟩ := eq_and_eq_of_append ha.name
    (fun c hc => isAttrChar_of_isReduceNameChar (hn c hc)) (ha.spelling.not_attrChar hw)
    (isAttrChar_of_blanks hl) hcut
  refine ⟨?_, hname ▸ hn⟩
  have hs := ha.spelling
  cases hspelling : a.spelling with
  | bare =>
    rw [hspelling] at hrest
    exact absurd hrest (hw.not_mem hl (by decide) (by decide))
  | unquoted left right v =>
    rw [hspelling] at hs hrest
    obtain ⟨hleft, hright, hne, hv⟩ := hs
    obtain ⟨c, v, rfl⟩ := List.exists_cons_of_ne_nil hne
    rw [Spelling.text, List.append_assoc, List.cons_append, List.append_assoc] at hrest
    obtain ⟨-, hvalue⟩ := cons_inj_of_blanks hleft hl (by decide) (by decide) hrest
    obtain ⟨rfl, -⟩ := cons_inj_of_blanks hright hr (hv c (by simp)).1 hquote.1 hvalue
    exact absurd hquote.2 (hv c (by simp)).2
  | quoted mark left right v =>
    rw [hspelling] at hs hrest
    obtain ⟨hleft, hright, hmark, hv⟩ := hs
    have hblank : isBlank mark = false := by rcases hmark with rfl | rfl <;> decide
    rw [Spelling.text, List.append_assoc, List.cons_append, List.append_assoc] at hrest
    obtain ⟨-, hvalue⟩ := cons_inj_of_blanks hleft hl (by decide) (by decide) hrest
    obtain ⟨rfl, hend⟩ := cons_inj_of_blanks hright hr hblank hquote.1 hvalue
    cases v with
    | nil => rfl
    | cons c v => exact absurd (by rw [(List.cons.inj hend).1]; simp) hv

/-- An empty value has quotes. -/
theorem Spelling.exists_of_empty {s : Spelling} (hs : s.WellFormed) (h : s.value = some []) :
    ∃ mark left right, s = quoted mark left right [] := by
  cases s with
  | bare => cases h
  | unquoted left right v => exact absurd (Option.some.inj h) hs.2.2.1
  | quoted mark left right v => exact ⟨mark, left, right, by rw [Option.some.inj h]⟩

theorem beginsEmpty_iff (ha : a.WellFormed) {w : List Char} (hw : EndsAttr w) :
    BeginsEmpty (a.body ++ w) ↔ a.spelling.value = some [] ∧ ∀ c ∈ a.name, Reduce.isNameChar c = true := by
  refine ⟨of_beginsEmpty ha hw, fun ⟨hvalue, hname⟩ => ?_⟩
  have hs := ha.spelling
  obtain ⟨mark, left, right, hspelling⟩ := Spelling.exists_of_empty hs hvalue
  rw [hspelling] at hs
  obtain ⟨hleft, hright, hmark, -⟩ := hs
  exact ⟨a.name, left, right, mark, w, by simp [SpelledAttr.body, Spelling.text, hspelling], ha.name_ne,
    hname, hleft, hright, hmark⟩

/-- Whether the pass leaves an attribute out: its value is empty, and its name is one that the pass
knows, other than `alt`. -/
def Attr.isDropped (a : Attr) : Bool :=
  a.value == some [] && a.name.all Reduce.isNameChar && lower a.name != "alt".toList

theorem cleanse_of_solid {v : List Char} (hv : ∀ c ∈ v, isBlank c = false) : cleanse v = v := by
  simpa [cleanse] using replaceAll_solid hv []

/-- What is behind the name of an attribute stays, with its value cleansed. -/
theorem replaceAll_spelling {s : Spelling} (hs : s.WellFormed) {w : List Char} (hw : EndsAttr w) :
    replaceAll Reduce.emptyAttribute? (s.text ++ w) =
      (s.mapValue cleanse).text ++ replaceAll Reduce.emptyAttribute? w := by
  have hequals : isBlank '=' = false ∧ Reduce.isNameChar '=' = false := by decide
  have hleft : ∀ {left : List Char}, (∀ c ∈ left, isBlank c = true) → ∀ x,
      replaceAll Reduce.emptyAttribute? (left ++ '=' :: x) =
        left ++ '=' :: replaceAll Reduce.emptyAttribute? x := fun hleft x => by
    rw [replaceAll_blanks hleft (not_blank_head hequals.1 x) (not_beginsEmpty_cons hequals.2 x),
      replaceAll_of_none contextFree_emptyAttribute (emptyAttribute?_of_not_blank hequals.1 x)]
  cases s with
  | bare => rfl
  | unquoted left right v =>
    obtain ⟨hblank, hright, hne, hv⟩ := hs
    obtain ⟨c, u, hcu⟩ := List.exists_cons_of_ne_nil hne
    have hsolid : ∀ c ∈ v, isBlank c = false := fun c hc => (hv c hc).1
    have hvalue : ∀ d y, v ++ w = d :: y → isBlank d = false := by
      rw [hcu, List.cons_append]
      exact not_blank_head (hsolid c (by simp [hcu])) _
    rw [Spelling.text, List.append_assoc, List.cons_append, List.append_assoc, hleft hblank,
      replaceAll_blanks hright hvalue (not_beginsEmpty_unquoted hv hw), replaceAll_solid hsolid,
      Spelling.mapValue, cleanse_of_solid hsolid]
    simp [Spelling.text]
  | quoted mark left right v =>
    obtain ⟨hblank, hright, hmark, hv⟩ := hs
    have hquote : isBlank mark = false ∧ Reduce.isNameChar mark = false ∧ mark ≠ '>' := by
      rcases hmark with rfl | rfl <;> decide
    rw [Spelling.text, List.append_assoc, List.cons_append, List.append_assoc, hleft hblank, List.cons_append,
      replaceAll_blanks hright (not_blank_head hquote.1 _) (not_beginsEmpty_cons hquote.2.1 _),
      replaceAll_of_none contextFree_emptyAttribute (emptyAttribute?_of_not_blank hquote.1 _),
      List.append_assoc, List.singleton_append, replaceAll_value hmark hv (hw.head_ne ⟨hquote.1, hquote.2.2⟩)]
    simp [Spelling.text, Spelling.mapValue]

/-- The scan of an attribute with what follows it. -/
theorem replaceAll_spelled (ha : a.WellFormed) {w : List Char} (hw : EndsAttr w) :
    replaceAll Reduce.emptyAttribute? (a.text ++ w) =
      (if a.attr.isDropped then [] else (a.mapValue cleanse).text) ++
        replaceAll Reduce.emptyAttribute? w := by
  have hiff := beginsEmpty_iff ha hw
  by_cases hempty : BeginsEmpty (a.body ++ w)
  · obtain ⟨hvalue, hname⟩ := hiff.1 hempty
    have hs := ha.spelling
    obtain ⟨mark, left, right, hspelling⟩ := Spelling.exists_of_empty hs hvalue
    rw [hspelling] at hs
    obtain ⟨hleft, hright, hmark, -⟩ := hs
    have htext : a.text = a.before ++ (a.name ++ (left ++ '=' :: (right ++ [mark, mark]))) := by
      simp [SpelledAttr.text, SpelledAttr.body, Spelling.text, hspelling]
    obtain ⟨k, hk, hktext, -⟩ := emptyAttribute?_gives (s := a.text ++ w) (v := w) (by simp [htext])
      ha.before_ne ha.before ha.name_ne hname hleft hright hmark
    have hdropped : a.attr.isDropped = true ↔ ¬ lower a.name = "alt".toList := by
      have hall : (a.name.all Reduce.isNameChar) = true := by simpa using hname
      simp [Attr.isDropped, SpelledAttr.attr, hvalue, hall]
    have hmap : (a.mapValue cleanse).text = a.text := by
      simp [SpelledAttr.mapValue, SpelledAttr.text, SpelledAttr.body, Spelling.mapValue, hspelling, cleanse]
    rw [replaceAll_of_gives contextFree_emptyAttribute rfl (by simp [htext]) hk (hktext.trans htext.symm),
      hktext, ← htext, hmap]
    by_cases halt : lower a.name = "alt".toList
    · rw [if_pos halt, if_neg (by rw [hdropped]; exact not_not_intro halt)]
    · rw [if_neg halt, if_pos (hdropped.2 halt)]
  · have hdropped : ¬ a.attr.isDropped = true := fun h => by
      simp only [Attr.isDropped, Bool.and_eq_true, beq_iff_eq, List.all_eq_true] at h
      exact hempty (hiff.2 h.1)
    obtain ⟨c, n, hn⟩ := List.exists_cons_of_ne_nil ha.name_ne
    have hsolid : ∀ c ∈ a.name, isBlank c = false := fun c hc => not_blank_of_isAttrChar (ha.name c hc)
    have hhead : ∀ d y, a.body ++ w = d :: y → isBlank d = false := by
      rw [SpelledAttr.body, hn]
      exact not_blank_head (hsolid c (by simp [hn])) _
    rw [if_neg hdropped, SpelledAttr.text, List.append_assoc, replaceAll_blanks ha.before hhead hempty,
      SpelledAttr.body, List.append_assoc, replaceAll_solid hsolid, replaceAll_spelling ha.spelling hw]
    simp [SpelledAttr.text, SpelledAttr.body, SpelledAttr.mapValue]

/-- A spelt attribute after the pass, if it stays. -/
def SpelledAttr.kept? (a : SpelledAttr) : Option SpelledAttr :=
  if a.attr.isDropped then none else some (a.mapValue cleanse)

/-- The scan of attributes with the end of their tag. -/
theorem replaceAll_spelledAttrs {attrs : List SpelledAttr} (ha : ∀ a ∈ attrs, a.WellFormed) {w : List Char}
    (hw : EndsAttr w) :
    replaceAll Reduce.emptyAttribute? (attrs.flatMap SpelledAttr.text ++ w) =
      (attrs.filterMap SpelledAttr.kept?).flatMap SpelledAttr.text ++
        replaceAll Reduce.emptyAttribute? w := by
  induction attrs with
  | nil => rfl
  | cons a attrs ih =>
    have hrest : ∀ x ∈ attrs, x.WellFormed := fun x hx => ha x (by simp [hx])
    rw [List.flatMap_cons, List.append_assoc, replaceAll_spelled (ha a (by simp)) (endsAttr_attrs hrest hw),
      ih hrest, List.filterMap_cons, SpelledAttr.kept?]
    split <;> simp

end PagePress.Markup
