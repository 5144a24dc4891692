import Mathlib.Data.List.Forall2
import Mathlib.Data.List.TakeWhile
import Mathlib.Tactic.Common
import PagePress.Text.Scan

/-!
Scanning a text part by part. A recogniser that looks at nothing before the place where it stands
either passes over a part of a text character by character, whatever follows (`Passes`), or takes
the part as a piece, whatever follows (`Takes`). Both say what a scan of a longer text does with
the part, so that the scan of a whole document is put together from the scans of its parts.
-/

namespace PagePress.Text

/-- What is said of the members of a list is decided member by member, not by a search through all
characters. -/
instance (priority := high) decidableForallMem {α : Type} {p : α → Prop} [DecidablePred p]
    (l : List α) : Decidable (∀ a ∈ l, p a) := List.decidableBAll p l

instance (priority := high) decidableExistsMem {α : Type} {p : α → Prop} [DecidablePred p]
    (l : List α) : Decidable (∃ a ∈ l, p a) := List.decidableBEx p l

/-- A suffix that begins with a character stands behind a part without this character. -/
theorem suffix_of_suffix_append {α : Type} {c : α} {t u v : List α} (hu : c ∉ u)
    (h : c :: t <:+ u ++ v) : c :: t <:+ v := by
  induction u with
  | nil => exact h
  | cons d u ih =>
    rw [List.cons_append, List.suffix_cons_iff] at h
    rw [List.mem_cons, not_or] at hu
    rcases h with h | h
    · exact absurd (List.cons.inj h).1 hu.1
    · exact ih hu.2 h

/-- A list without a given member, found in front of a text with this member, stands before it. -/
theorem exists_of_append_eq {α : Type} {c : α} {u v s t : List α} (hu : c ∉ u)
    (h : u ++ v = s ++ c :: t) : ∃ z, s = u ++ z ∧ v = z ++ c :: t := by
  rcases List.append_eq_append_iff.1 h with ⟨z, hs, hv⟩ | ⟨z, hs, hv⟩
  · exact ⟨z, hs, hv⟩
  · cases z with
    | nil => exact ⟨[], by simpa using hs.symm, by simpa using hv.symm⟩
    | cons d z =>
      obtain ⟨rfl, -⟩ := List.cons.inj hv
      exact absurd (by rw [hs]; simp) hu

/-- A word none of whose members can stand in `x` stands behind `x`, or in front of it. -/
theorem infix_of_infix_append {α : Type} {p : α → Bool} {w x t : List α} (hne : w ≠ [])
    (hw : ∀ c ∈ w, p c = true) (hx : ∀ c ∈ x, p c = false) (h : w <:+: x ++ t) : w <:+: t := by
  induction x with
  | nil => exact h
  | cons c x ih =>
    rcases List.infix_cons_iff.1 h with h | h
    · obtain ⟨d, w, rfl⟩ := List.exists_cons_of_ne_nil hne
      obtain ⟨rfl, -⟩ := List.cons_prefix_cons.1 h
      have hd := hw d (by simp)
      rw [hx d (by simp)] at hd
      cases hd
    · exact ih (fun d hd => hx d (by simp [hd])) h

theorem infix_of_append_infix {α : Type} {p : α → Bool} {w t x : List α} (hne : w ≠ [])
    (hw : ∀ c ∈ w, p c = true) (hx : ∀ c ∈ x, p c = false) (h : w <:+: t ++ x) : w <:+: t := by
  rw [← List.reverse_infix, List.reverse_append] at h
  exact List.reverse_infix.1 (infix_of_infix_append (by simpa using hne) (by simpa using hw)
    (by simpa using hx) h)

/-- A text is cut in one way in front of its first member of a kind. -/
theorem eq_and_eq_of_append_cons {α : Type} {c : α} {u u' x x' : List α} (hu : c ∉ u) (hu' : c ∉ u')
    (h : u ++ c :: x = u' ++ c :: x') : u = u' ∧ x = x' := by
  obtain ⟨z, rfl, hz⟩ := exists_of_append_eq hu h
  cases z with
  | nil => exact ⟨(List.append_nil u).symm, (List.cons.inj hz).2⟩
  | cons d z =>
    obtain ⟨rfl, -⟩ := List.cons.inj hz
    exact absurd (by simp) hu'

/-- A run of characters ends in front of the first one of another kind. -/
theorem run_of_append {α : Type} {p : α → Bool} {u x : List α} (hu : ∀ c ∈ u, p c = true)
    (hx : ∀ c y, x = c :: y → p c = false) : (u ++ x).takeWhile p = u ∧ (u ++ x).dropWhile p = x := by
  rw [List.takeWhile_append_of_pos hu, List.dropWhile_append_of_pos hu]
  cases x with
  | nil => simp
  | cons c y => simp [hx c y rfl]

/-- Where a run of characters ends does not depend on how the text is cut. -/
theorem eq_and_eq_of_append {α : Type} {p : α → Bool} {u u' x x' : List α} (hu : ∀ c ∈ u, p c = true)
    (hu' : ∀ c ∈ u', p c = true) (hx : ∀ c y, x = c :: y → p c = false)
    (hx' : ∀ c y, x' = c :: y → p c = false) (h : u ++ x = u' ++ x') : u = u' ∧ x = x' := by
  obtain rfl : u = u' := by rw [← (run_of_append hu hx).1, h, (run_of_append hu' hx').1]
  exact ⟨rfl, List.append_cancel_left h⟩

/-! ### Cuts -/

namespace Cut

variable {s : List Char}

/-- The cut behind a given head. -/
def behind (u v : List Char) : Cut (u ++ v) := ⟨u, v, rfl⟩

/-- A cut is known by its head. -/
theorem ext_text {a b : Cut s} (h : a.text = b.text) : a = b := by
  obtain ⟨t, u, hu⟩ := a
  obtain ⟨t', u', hu'⟩ := b
  obtain rfl : t = t' := h
  have : u = u' := List.append_cancel_left (hu.trans hu'.symm)
  subst this
  rfl

theorem mem_of_mem_text (k : Cut s) {c : Char} (h : c ∈ k.text) : c ∈ s := by
  rw [← k.append_eq]
  exact List.mem_append_left _ h

theorem mem_of_mem_rest (k : Cut s) {c : Char} (h : c ∈ k.rest) : c ∈ s := by
  rw [← k.append_eq]
  exact List.mem_append_right _ h

theorem rest_of_text {u v : List Char} {k : Cut (u ++ v)} (h : k.text = u) : k.rest = v := by
  have hk := k.append_eq
  rw [h] at hk
  exact List.append_cancel_left hk

@[simp] theorem behind_text (u v : List Char) : (behind u v).text = u := rfl

@[simp] theorem span_text (p : Char → Bool) : (span p s).text = s.takeWhile p := rfl

@[simp] theorem span_rest (p : Char → Bool) : (span p s).rest = s.dropWhile p := rfl

@[simp] theorem andThen_text (a : Cut s) (b : Cut a.rest) : (a.andThen b).text = a.text ++ b.text :=
  rfl

@[simp] theorem andThen_rest (a : Cut s) (b : Cut a.rest) : (a.andThen b).rest = b.rest := rfl

@[simp] theorem char?_nil (p : Char → Bool) : char? p [] = none := rfl

theorem char?_pos {p : Char → Bool} {c : Char} (h : p c = true) (s : List Char) :
    char? p (c :: s) = some ⟨[c], s, rfl⟩ := by
  simp [char?, h]

theorem rest_suffix (k : Cut s) : k.rest <:+ s := ⟨k.text, k.append_eq⟩

theorem char?_neg {p : Char → Bool} {c : Char} (h : p c = false) (s : List Char) :
    char? p (c :: s) = none := by
  simp [char?, h]

/-- A character is not taken where another one stands. -/
theorem char?_eq_none {a : Char} (h : s.head? ≠ some a) : char? (· == a) s = none := by
  cases s with
  | nil => rfl
  | cons c s => exact char?_neg (p := (· == a)) (beq_false_of_ne fun hc => h (congrArg some hc)) s

theorem eq_cons_of_char? {p : Char → Bool} {k : Cut s} (h : char? p s = some k) :
    ∃ c, p c = true ∧ s = c :: k.rest := by
  cases s with
  | nil => cases h
  | cons c s =>
    by_cases hc : p c = true
    · rw [char?_pos hc] at h
      obtain rfl := Option.some.inj h
      exact ⟨c, hc, rfl⟩
    · rw [char?_neg (by simpa using hc)] at h
      cases h

theorem text_of_char? {p : Char → Bool} {k : Cut s} (h : char? p s = some k) :
    ∃ c, p c = true ∧ k.text = [c] := by
  obtain ⟨c, hc, hs⟩ := eq_cons_of_char? h
  exact ⟨c, hc, List.append_cancel_right ((k.append_eq.trans hs).trans List.singleton_append.symm)⟩

theorem text_of_char?_beq {a : Char} {k : Cut s} (h : char? (· == a) s = some k) : k.text = [a] := by
  obtain ⟨c, hc, hk⟩ := text_of_char? h
  rw [hk, eq_of_beq hc]

theorem spanSome?_neg {p : Char → Bool} {c : Char} (h : p c = false) (s : List Char) :
    spanSome? p (c :: s) = none := by
  simp [spanSome?, char?_neg h]

theorem spanSome?_pos {p : Char → Bool} {c : Char} (h : p c = true) (s : List Char) :
    spanSome? p (c :: s) = some (andThen ⟨[c], s, rfl⟩ (span p s)) := by
  simp [spanSome?, char?_pos h]

theorem spanSome?_eq_some {p : Char → Bool} {k : Cut s} (h : spanSome? p s = some k) :
    ∃ c u, k.text = c :: u ∧ ∀ d ∈ c :: u, p d = true := by
  cases s with
  | nil => cases h
  | cons c s =>
    by_cases hc : p c = true
    · rw [spanSome?_pos hc] at h
      obtain rfl := Option.some.inj h
      refine ⟨c, s.takeWhile p, rfl, fun d hd => ?_⟩
      rcases List.mem_cons.1 hd with rfl | hd
      · exact hc
      · exact List.mem_takeWhile_imp hd
    · rw [spanSome?_neg (by simpa using hc)] at h
      cases h

/-- A cut that takes `u` off the front of `u ++ v`. -/
abbrev Gives {s : List Char} (o : Option (Cut s)) (u v : List Char) : Prop :=
  ∃ k, o = some k ∧ k.text = u ∧ k.rest = v

/-- A cut behind another one. -/
theorem Gives.andThen {s : List Char} (k : Cut s) {o : Option (Cut k.rest)} {u v : List Char}
    (h : Gives o u v) : Gives (o.map k.andThen) (k.text ++ u) v := by
  obtain ⟨k', rfl, htext, hrest⟩ := h
  exact ⟨k.andThen k', rfl, by rw [andThen_text, htext], hrest⟩

theorem char?_gives {p : Char → Bool} {c : Char} {v : List Char} (hs : s = c :: v)
    (hc : p c = true) : Gives (char? p s) [c] v := by
  subst hs
  exact ⟨_, char?_pos hc v, rfl, rfl⟩

/-- A run of characters is taken up to where it ends. -/
theorem span_gives {p : Char → Bool} {u v : List Char} (hs : s = u ++ v) (hu : ∀ c ∈ u, p c = true)
    (hv : ∀ c w, v = c :: w → p c = false) : (span p s).text = u ∧ (span p s).rest = v :=
  hs ▸ run_of_append hu hv

/-- A run of characters is taken up to one of another kind. -/
theorem span_gives_cons {p : Char → Bool} {c : Char} {u v : List Char} (hs : s = u ++ c :: v)
    (hu : ∀ d ∈ u, p d = true) (hc : p c = false) : (span p s).text = u ∧ (span p s).rest = c :: v :=
  span_gives hs hu fun _ _ h => (List.cons.inj h).1 ▸ hc

/-- All is taken up to the first `a`. -/
theorem span_ne_gives {a : Char} {u v : List Char} (hs : s = u ++ a :: v) (hu : a ∉ u) :
    (span (· != a) s).text = u ∧ (span (· != a) s).rest = a :: v := by
  refine span_gives_cons hs (fun c hc => ?_) (by simp)
  rw [bne_iff_ne]
  rintro rfl
  exact hu hc

theorem spanSome?_gives {p : Char → Bool} {c : Char} {u v : List Char} (hs : s = c :: u ++ v)
    (hu : ∀ d ∈ c :: u, p d = true) (hv : ∀ d w, v = d :: w → p d = false) :
    Gives (spanSome? p s) (c :: u) v := by
  obtain ⟨k, hk, ht, hr⟩ := char?_gives (p := p) hs (hu c (by simp))
  obtain ⟨htext, hrest⟩ := span_gives hr (fun d hd => hu d (by simp [hd])) hv
  refine ⟨k.andThen (span p k.rest), ?_, ?_, hrest⟩
  · rw [spanSome?, hk, Option.map_some]
  · rw [andThen_text, ht, htext, List.singleton_append]

/-- Everything before a place is taken when nothing on the way stops it. -/
theorem before?_gives {p : List Char → Bool} {u v : List Char} (hs : s = u ++ v)
    (h : ∀ x c y, u = x ++ c :: y → p (c :: y ++ v) = false) (hv : p v = true) :
    Gives (before? p s) u v := by
  subst hs
  induction u with
  | nil =>
    cases v with
    | nil => exact ⟨_, if_pos hv, rfl, rfl⟩
    | cons d v => exact ⟨_, if_pos hv, rfl, rfl⟩
  | cons c u ih =>
    have hc : p (c :: (u ++ v)) = false := h [] c u rfl
    obtain ⟨k, hk, h1, h2⟩ := ih fun x d y e => h (c :: x) d y (by rw [e]; rfl)
    refine ⟨_, by simp only [before?, List.cons_append, hc, hk, Option.map_some]; rfl, ?_, h2⟩
    simp [h1]

/-- A word that is there is taken. -/
theorem wordBy?_gives {f : Char → Char → Bool} {w v : List Char}
    (hf : ∀ c ∈ w, f c c = true) (hs : s = w ++ v) : Gives (wordBy? f w s) w v := by
  subst hs
  induction w with
  | nil => exact ⟨_, rfl, rfl, rfl⟩
  | cons c w ih =>
    obtain ⟨k, hk, h1, h2⟩ := ih fun d hd => hf d (by simp [hd])
    have hc : f c c = true := hf c (by simp)
    refine ⟨_, by simp only [wordBy?, List.cons_append, hc, if_true, hk, Option.map_some]; rfl,
      ?_, h2⟩
    simp [h1]

theorem word?_gives {w : String} {v : List Char} (hs : s = w.toList ++ v) :
    Gives (word? w s) w.toList v :=
  wordBy?_gives (fun c _ => by simp) hs

/-- The characters of a word that was taken agree with those of the word. -/
theorem same_of_wordBy? {same : Char → Char → Bool} {w : List Char} {k : Cut s}
    (h : wordBy? same w s = some k) : List.Forall₂ (fun a c => same a c = true) w k.text := by
  induction w generalizing s with
  | nil =>
    rw [← Option.some.inj h]
    exact .nil
  | cons a w ih =>
    cases s with
    | nil => cases h
    | cons c s =>
      unfold wordBy? at h
      split at h
      · rename_i hac
        obtain ⟨k', hk', rfl⟩ := Option.map_eq_some_iff.1 h
        exact .cons hac (ih hk')
      · cases h

theorem text_of_word? {w : String} {k : Cut s} (h : word? w s = some k) : k.text = w.toList := by
  have hsame := same_of_wordBy? h
  simp only [beq_iff_eq, List.forall₂_eq_eq_eq] at hsame
  exact hsame.symm

theorem wordBy?_neg {same : Char → Char → Bool} {a c : Char} (h : same a c = false)
    (w v : List Char) : wordBy? same (a :: w) (c :: v) = none := by
  simp [wordBy?, h]

/-! ### Cuts of a longer text -/

/-- A cut of a text as a cut of a longer one. -/
def extend {s : List Char} (k : Cut s) (t : List Char) : Cut (s ++ t) :=
  ⟨k.text, k.rest ++ t, by rw [← List.append_assoc, k.append_eq]⟩

/-- Steps that cut alike make up recognisers that cut alike. -/
theorem bind_extend {α β : Type} {s t : List Char} {o : Option (Cut s)} {o' : Option (Cut (s ++ t))}
    {f : Cut s → Option α} {f' : Cut (s ++ t) → Option β} {g : α → β}
    (ho : o' = o.map (extend · t)) (hf : ∀ k, f' (k.extend t) = (f k).map g) :
    o'.bind f' = (o.bind f).map g := by
  subst ho
  cases o with
  | none => rfl
  | some k => exact hf k

/-- A word without a character is found in front of it, or not at all. -/
theorem wordBy?_extend {same : Char → Char → Bool} {w : List Char} {x : Char}
    (hx : ∀ a ∈ w, same a x = false) (s t : List Char) :
    wordBy? same w (s ++ x :: t) = (wordBy? same w s).map (extend · (x :: t)) := by
  induction w generalizing s with
  | nil => rfl
  | cons a w ih =>
    cases s with
    | nil => simp [wordBy?, hx a (by simp)]
    | cons c s =>
      by_cases hac : same a c = true
      · simp [wordBy?, hac, ih (fun b hb => hx b (by simp [hb])), extend]
        rfl
      · simp [wordBy?, hac]

variable {p : Char → Bool} {x : Char} (hx : p x = false) (s t : List Char)
include hx

theorem char?_extend : char? p (s ++ x :: t) = (char? p s).map (extend · (x :: t)) := by
  cases s with
  | nil => exact char?_neg hx t
  | cons c s => by_cases hc : p c = true <;> simp [char?, hc, extend]

theorem span_extend : span p (s ++ x :: t) = (span p s).extend (x :: t) := by
  refine ext_text ?_
  show (s ++ x :: t).takeWhile p = s.takeWhile p
  induction s with
  | nil => simp [hx]
  | cons c s ih => by_cases hc : p c = true <;> simp [hc, ih]

theorem spanSome?_extend : spanSome? p (s ++ x :: t) = (spanSome? p s).map (extend · (x :: t)) := by
  cases s with
  | nil => exact spanSome?_neg hx t
  | cons c s =>
    by_cases hc : p c = true
    · have hspan := congrArg Cut.text (span_extend hx s t)
      simp only [spanSome?, List.cons_append, char?_pos hc, Option.map_some, Option.some.injEq]
      exact ext_text (congrArg (c :: ·) hspan)
    · simp [spanSome?, char?, hc]

end Cut

/-! ### One step of a scan -/

variable {α : Type} {r : Recognizer α}

@[simp] theorem segmentsFrom_nil (r : Recognizer α) (b : Option Char) : segmentsFrom r b [] = [] := by
  rw [segmentsFrom]

theorem segmentsFrom_of_none {b : Option Char} {c : Char} {s : List Char}
    (h : r b (c :: s) = none) :
    segmentsFrom r b (c :: s) = .plain c :: segmentsFrom r (some c) s := by
  rw [segmentsFrom]
  split
  · rfl
  · rename_i a k hk
    rw [h] at hk
    cases hk

theorem segmentsFrom_of_some {b : Option Char} {u v : List Char} {a : α} {k : Cut (u ++ v)}
    (hu : u ≠ []) (h : r b (u ++ v) = some (a, k)) (hk : k.text = u) :
    segmentsFrom r b (u ++ v) = .piece u a :: segmentsFrom r (u.getLast?.or b) v := by
  obtain ⟨c, u', rfl⟩ := List.exists_cons_of_ne_nil hu
  have hv := Cut.rest_of_text hk
  simp only [List.cons_append] at h hk hv k ⊢
  rw [segmentsFrom]
  split
  · rename_i hn
    rw [h] at hn
    cases hn
  · rename_i a' k' hk'
    rw [h] at hk'
    cases hk'
    have hne : ¬ k.text = [] := by rw [hk]; simp
    rw [dif_neg hne]
    show Segment.piece k.text a :: segmentsFrom r (k.text.getLast?.or b) k.rest = _
    rw [hk, hv]

/-- A recogniser that does not ask for the character before. -/
def ContextFree (r : Recognizer α) : Prop := ∀ b s, r b s = r none s

/-- A recogniser that only recognises what begins with `<`. -/
def AtMark (r : Recognizer α) : Prop := ∀ c s, c ≠ '<' → r none (c :: s) = none

theorem segmentsFrom_eq_segments (hr : ContextFree r) (b : Option Char) (s : List Char) :
    segmentsFrom r b s = segments r s := by
  cases s with
  | nil => simp [segments]
  | cons c s =>
    unfold segments segmentsFrom
    rw [hr b]
    cases h : r none (c :: s) with
    | none => rfl
    | some x =>
      obtain ⟨a, k⟩ := x
      by_cases hk : k.text = []
      · simp [hk]
      · obtain ⟨t, ht⟩ := Option.ne_none_iff_exists'.1 fun e => hk (List.getLast?_eq_none_iff.1 e)
        simp [hk, Cut.last, ht]

/-! ### Parts of a text -/

/-- A scan goes over `u` character by character, whatever follows. -/
def Passes (r : Recognizer α) (u : List Char) : Prop :=
  ∀ v, segments r (u ++ v) = u.map .plain ++ segments r v

/-- A scan takes `u` as one piece with the value `a`, whatever follows. -/
def Takes (r : Recognizer α) (u : List Char) (a : α) : Prop :=
  ∀ v, segments r (u ++ v) = .piece u a :: segments r v

theorem passes_nil : Passes r [] := fun _ => rfl

theorem Passes.append {u u' : List Char} (h : Passes r u) (h' : Passes r u') :
    Passes r (u ++ u') := by
  intro v
  rw [List.append_assoc, h, h', List.map_append, List.append_assoc]

theorem passes_cons (hr : ContextFree r) {c : Char} {u : List Char}
    (h : ∀ v, r none (c :: (u ++ v)) = none) (hu : Passes r u) : Passes r (c :: u) := by
  intro v
  rw [List.cons_append, segments, segmentsFrom_of_none (h v), segmentsFrom_eq_segments hr, hu]
  rfl

/-- A text without the character that all pieces begin with is passed over. -/
theorem passes_of_not_mem (hr : ContextFree r) {x : Char} (hx : ∀ c s, c ≠ x → r none (c :: s) = none)
    {u : List Char} (hu : x ∉ u) : Passes r u := by
  induction u with
  | nil => exact passes_nil
  | cons c u ih =>
    rw [List.mem_cons, not_or] at hu
    exact passes_cons hr (fun v => hx c _ (Ne.symm hu.1)) (ih hu.2)

theorem passes_text (hr : ContextFree r) (hm : AtMark r) {u : List Char} (hu : '<' ∉ u) :
    Passes r u := passes_of_not_mem hr hm hu

/-- A tag that is not recognised at its start is passed over as a whole. -/
theorem passes_tag (hr : ContextFree r) (hm : AtMark r) {u : List Char}
    (h : ∀ v, r none ('<' :: (u ++ v)) = none) (hu : '<' ∉ u) : Passes r ('<' :: u) :=
  passes_cons hr h (passes_text hr hm hu)

theorem takes_of_eq (hr : ContextFree r) {u : List Char} {a : α} (hu : u ≠ [])
    (h : ∀ v, ∃ k : Cut (u ++ v), r none (u ++ v) = some (a, k) ∧ k.text = u) : Takes r u a := by
  intro v
  obtain ⟨k, hk, ht⟩ := h v
  rw [segments, segmentsFrom_of_some hu hk ht, segmentsFrom_eq_segments hr]

/-! ### Replacing and listing -/

@[simp] theorem segments_nil : segments r [] = [] := segmentsFrom_nil r none

@[simp] theorem replaceAll_nil (r : Recognizer (List Char)) : replaceAll r [] = [] := by
  simp [replaceAll]

theorem replaceAll_of_none {r : Recognizer (List Char)} (hr : ContextFree r) {c : Char}
    {s : List Char} (h : r none (c :: s) = none) :
    replaceAll r (c :: s) = c :: replaceAll r s := by
  rw [replaceAll, segments, segmentsFrom_of_none h, segmentsFrom_eq_segments hr]
  rfl

theorem replaceAll_of_gives {r : Recognizer (List Char)} (hr : ContextFree r)
    {s u v a : List Char} {k : Cut s} (hs : s = u ++ v) (hu : u ≠ []) (h : r none s = some (a, k))
    (ht : k.text = u) : replaceAll r s = a ++ replaceAll r v := by
  subst hs
  rw [replaceAll, segments, segmentsFrom_of_some hu h ht, segmentsFrom_eq_segments hr]
  rfl

theorem Passes.replaceAll {r : Recognizer (List Char)} {u : List Char} (h : Passes r u)
    (v : List Char) : replaceAll r (u ++ v) = u ++ replaceAll r v := by
  unfold Text.replaceAll
  rw [h, List.flatMap_append, List.flatMap_map]
  simp

theorem Takes.replaceAll {r : Recognizer (List Char)} {u a : List Char} (h : Takes r u a)
    (v : List Char) : replaceAll r (u ++ v) = a ++ replaceAll r v := by
  unfold Text.replaceAll
  rw [h, List.flatMap_cons]

/-- A scan finds some values in `u`, whatever follows. -/
def Lists (r : Recognizer α) (u : List Char) (as : List α) : Prop :=
  ∀ v, findAll r (u ++ v) = as ++ findAll r v

theorem Lists.append {u u' : List Char} {as as' : List α} (h : Lists r u as) (h' : Lists r u' as') :
    Lists r (u ++ u') (as ++ as') := by
  intro v
  rw [List.append_assoc, h, h', List.append_assoc]

theorem lists_of_passes {u : List Char} (h : Passes r u) : Lists r u [] := by
  intro v
  have hplain : (u.map (Segment.plain (α := α))).filterMap Segment.value? = [] := by
    simp [List.filterMap_eq_nil_iff, Segment.value?]
  rw [findAll, h, List.filterMap_append, hplain]
  rfl

theorem lists_of_takes {u : List Char} {a : α} (h : Takes r u a) : Lists r u [a] := by
  intro v
  rw [findAll, h]
  rfl

/-- A piece is taken and the rest of a tag is passed over. -/
theorem lists_of_gives (hr : ContextFree r) {u w : List Char} {a : α} (hu : u ≠ [])
    (h : ∀ v, ∃ k : Cut (u ++ (w ++ v)), r none (u ++ (w ++ v)) = some (a, k) ∧ k.text = u)
    (hw : Passes r w) : Lists r (u ++ w) [a] := by
  intro v
  obtain ⟨k, hk, ht⟩ := h v
  rw [List.append_assoc, findAll, segments, segmentsFrom_of_some hu hk ht,
    segmentsFrom_eq_segments hr]
  exact congrArg (a :: ·) (lists_of_passes hw v)

/-- A scan that recognises nothing leaves plain characters. -/
theorem segmentsFrom_of_none_all {s : List Char} (h : ∀ b u, u <:+ s → r b u = none)
    (b : Option Char) : segmentsFrom r b s = s.map .plain := by
  induction s generalizing b with
  | nil => simp
  | cons c s ih =>
    rw [segmentsFrom_of_none (h b _ List.suffix_rfl),
      ih fun b u hu => h b u (hu.trans (List.suffix_cons c s))]
    rfl

/-- A scan that recognises nothing leaves a text as it is. -/
theorem replaceAll_eq_self {r : Recognizer (List Char)} (hr : ContextFree r) {s : List Char}
    (h : ∀ u, u <:+ s → r none u = none) : replaceAll r s = s := by
  induction s with
  | nil => simp
  | cons c s ih =>
    rw [replaceAll_of_none hr (h _ List.suffix_rfl), ih fun u hu => h u (hu.trans (List.suffix_cons c s))]

/-- Every character of a text with replacements stood there before or comes from a
replacement. -/
theorem mem_replaceAll {r : Recognizer (List Char)} {p : Char → Prop} {s : List Char}
    (hr : ∀ b t a (k : Cut t), r b t = some (a, k) → ∀ c ∈ a, c ∈ t ∨ p c) {c : Char}
    (hc : c ∈ replaceAll r s) : c ∈ s ∨ p c := by
  unfold replaceAll segments at hc
  generalize none = b at hc
  fun_induction segmentsFrom r b s with
  | case1 => simp at hc
  | case2 b d s _ ih =>
    rw [List.flatMap_cons, List.mem_append] at hc
    rcases hc with hc | hc
    · left
      simp only [List.mem_singleton] at hc
      simp [hc]
    · exact (ih hc).imp_left (List.mem_cons_of_mem _)
  | case3 b d s a k _ _ ih =>
    rw [List.flatMap_cons, List.mem_append] at hc
    rcases hc with hc | hc
    · left
      simp only [List.mem_singleton] at hc
      simp [hc]
    · exact (ih hc).imp_left (List.mem_cons_of_mem _)
  | case4 b d s a k hk _ _ ih =>
    rw [List.flatMap_cons, List.mem_append] at hc
    rcases hc with hc | hc
    · exact hr _ _ _ _ hk c hc
    · refine (ih hc).imp_left fun h => ?_
      rw [← k.append_eq]
      exact List.mem_append_right _ h

/-- Replacements leave the characters of a kind as they are when each of them has those of its
piece. -/
theorem filter_replaceAll {r : Recognizer (List Char)} {p : Char → Bool}
    (hr : ∀ b t a (k : Cut t), r b t = some (a, k) → a.filter p = k.text.filter p) (s : List Char) :
    (replaceAll r s).filter p = s.filter p := by
  unfold replaceAll segments
  generalize none = b
  fun_induction segmentsFrom r b s with
  | case1 => rfl
  | case2 b c s _ ih =>
    rw [List.flatMap_cons, List.filter_append, ih, ← List.filter_append]
    rfl
  | case3 b c s a k _ _ ih =>
    rw [List.flatMap_cons, List.filter_append, ih, ← List.filter_append]
    rfl
  | case4 b c s a k hk _ _ ih =>
    rw [List.flatMap_cons, List.filter_append, ih, hr _ _ _ _ hk, ← List.filter_append, k.append_eq]

/-! ### Scans that look back -/

/-- The text behind a character with each recognised piece replaced by its value. -/
def replaceFrom (r : Recognizer (List Char)) (b : Option Char) (s : List Char) : List Char :=
  (segmentsFrom r b s).flatMap fun
    | .plain c => [c]
    | .piece _ value => value

@[simp] theorem replaceFrom_nil (r : Recognizer (List Char)) (b : Option Char) :
    replaceFrom r b [] = [] := by
  simp [replaceFrom]

theorem replaceFrom_of_none {r : Recognizer (List Char)} {b : Option Char} {c : Char} {s : List Char}
    (h : r b (c :: s) = none) : replaceFrom r b (c :: s) = c :: replaceFrom r (some c) s := by
  rw [replaceFrom, segmentsFrom_of_none h]
  rfl

theorem replaceFrom_of_some {r : Recognizer (List Char)} {b : Option Char} {s u a : List Char}
    {k : Cut s} (hu : u ≠ []) (h : r b s = some (a, k)) (hk : k.text = u) :
    replaceFrom r b s = a ++ replaceFrom r (u.getLast?.or b) k.rest := by
  obtain ⟨text, rest, rfl⟩ := k
  obtain rfl : text = u := hk
  rw [replaceFrom, segmentsFrom_of_some hu h rfl]
  rfl

theorem replaceFrom_of_empty {r : Recognizer (List Char)} {b : Option Char} {c : Char} {s a : List Char}
    {k : Cut (c :: s)} (h : r b (c :: s) = some (a, k)) (hk : k.text = []) :
    replaceFrom r b (c :: s) = c :: replaceFrom r (some c) s := by
  rw [replaceFrom, segmentsFrom, h]
  simp only [dif_pos hk]
  rfl

/-- A scan is split where nothing recognised before goes over the border. -/
theorem replaceFrom_append_of_extend {r : Recognizer (List Char)} {t s : List Char}
    (h : ∀ b u, u <:+ s → r b (u ++ t) = (r b u).map fun x => (x.1, x.2.extend t)) (b : Option Char) :
    replaceFrom r b (s ++ t) = replaceFrom r b s ++ replaceFrom r (s.getLast?.or b) t := by
  induction hn : s.length using Nat.strongRecOn generalizing s b with
  | _ n ih =>
    cases s with
    | nil => simp
    | cons c s =>
      have hrest : ∀ u, u <:+ s → ∀ b,
          replaceFrom r b (u ++ t) = replaceFrom r b u ++ replaceFrom r (u.getLast?.or b) t := by
        intro u hu b
        refine ih u.length ?_ (fun b w hw => h b w ((hw.trans hu).trans (List.suffix_cons c s))) b rfl
        have := hu.length_le
        simp only [List.length_cons] at hn
        omega
      have hlast : ((c :: s).getLast?.or b) = s.getLast?.or (some c) := by
        cases hs : s.getLast? <;> simp [List.getLast?_cons, hs]
      have hc : r b (c :: (s ++ t)) = (r b (c :: s)).map fun x => (x.1, x.2.extend t) :=
        h b (c :: s) List.suffix_rfl
      cases hk : r b (c :: s) with
      | none =>
        rw [hk] at hc
        rw [List.cons_append, replaceFrom_of_none hc, replaceFrom_of_none hk, hrest s List.suffix_rfl,
          hlast]
        rfl
      | some x =>
        obtain ⟨a, k⟩ := x
        rw [hk] at hc
        by_cases ht : k.text = []
        · rw [List.cons_append, replaceFrom_of_empty hc ht, replaceFrom_of_empty hk ht,
            hrest s List.suffix_rfl, hlast]
          rfl
        · have hsuffix : k.rest <:+ s := by
            obtain ⟨d, u, hu⟩ := List.exists_cons_of_ne_nil ht
            have := k.append_eq
            rw [hu] at this
            injection this with _ this
            exact ⟨u, this⟩
          have hgetLast : (c :: s).getLast?.or b = k.rest.getLast?.or (k.text.getLast?.or b) := by
            rw [← Option.or_assoc, ← List.getLast?_append, k.append_eq]
          rw [List.cons_append, replaceFrom_of_some ht hc rfl, replaceFrom_of_some ht hk rfl, hgetLast,
            List.append_assoc, ← hrest k.rest hsuffix]
          rfl

theorem replaceFrom_eq_replaceAll {r : Recognizer (List Char)} (hr : ContextFree r) (b : Option Char)
    (s : List Char) : replaceFrom r b s = replaceAll r s := by
  rw [replaceFrom, segmentsFrom_eq_segments hr]
  rfl

theorem replaceAll_append_of_extend {r : Recognizer (List Char)} (hr : ContextFree r) {t : List Char}
    {s : List Char} (h : ∀ u, u <:+ s → r none (u ++ t) = (r none u).map fun x => (x.1, x.2.extend t)) :
    replaceAll r (s ++ t) = replaceAll r s ++ replaceAll r t := by
  have h : ∀ b u, u <:+ s → r b (u ++ t) = (r b u).map fun x => (x.1, x.2.extend t) := fun b u hu => by
    rw [hr b, hr b]
    exact h u hu
  have happend := replaceFrom_append_of_extend h none
  rwa [replaceFrom_eq_replaceAll hr, replaceFrom_eq_replaceAll hr, replaceFrom_eq_replaceAll hr] at happend

/-- No place of the text is recognised, each with the character that stands before it. -/
def Unseen {α : Type} (r : Recognizer α) : Option Char → List Char → Prop
  | _, [] => True
  | b, c :: s => r b (c :: s) = none ∧ Unseen r (some c) s

theorem Unseen.replaceFrom_eq {r : Recognizer (List Char)} {b : Option Char} {s : List Char}
    (h : Unseen r b s) : replaceFrom r b s = s := by
  induction s generalizing b with
  | nil => simp
  | cons c s ih => rw [replaceFrom_of_none h.1, ih h.2]

/-! ### Literals and joined texts -/

/-- A text given as a literal has the characters that the literal spells. -/
theorem not_mem_toList {s : String} {l : List Char} {c : Char} (hs : s = .ofList l) (h : c ∉ l) :
    c ∉ s.toList := by
  rw [hs, String.toList_ofList]
  exact h

/-- What is read off a list piece by piece is read off a joined list part by part. -/
theorem map_intercalate {α β : Type} {f : List α → List β} (hnil : f [] = [])
    (happend : ∀ u v, f (u ++ v) = f u ++ f v) (sep : List α) (xs : List (List α)) :
    f (List.intercalate sep xs) = List.intercalate (f sep) (xs.map f) := by
  induction xs with
  | nil => exact hnil
  | cons x xs ih =>
    cases xs with
    | nil => simp
    | cons y xs =>
      rw [List.intercalate_cons_cons, List.map_cons, List.map_cons, List.intercalate_cons_cons,
        happend, happend, ih, List.map_cons]

/-- A joined list holds what its parts and its separator hold. -/
theorem mem_intercalate {α : Type} {sep : List α} {xs : List (List α)} {a : α}
    (h : a ∈ List.intercalate sep xs) : a ∈ sep ∨ ∃ x ∈ xs, a ∈ x := by
  induction xs with
  | nil => cases h
  | cons x xs ih =>
    cases xs with
    | nil =>
      rw [List.intercalate_singleton] at h
      exact .inr ⟨x, by simp, h⟩
    | cons y xs =>
      rw [List.intercalate_cons_cons, List.mem_append, List.mem_append] at h
      rcases h with (h | h) | h
      · exact .inr ⟨x, by simp, h⟩
      · exact .inl h
      · rcases ih h with h | ⟨z, hz, h⟩
        · exact .inl h
        · exact .inr ⟨z, by simp [hz], h⟩

/-- A part of a joined list with what stands before and behind it. -/
theorem exists_intercalate_eq {α : Type} {s : List α} {xs : List (List α)} {x : List α} (h : x ∈ xs) :
    ∃ ys zs, xs = ys ++ x :: zs ∧
      List.intercalate s xs = ys.flatMap (· ++ s) ++ (x ++ zs.flatMap (s ++ ·)) := by
  induction xs with
  | nil => cases h
  | cons y xs ih =>
    have hhead : ∀ (y : List α) zs, List.intercalate s (y :: zs) = y ++ zs.flatMap (s ++ ·) := by
      intro y zs
      induction zs generalizing y with
      | nil => simp
      | cons z zs ih => rw [List.intercalate_cons_cons, ih, List.flatMap_cons]; simp
    rcases List.mem_cons.1 h with rfl | h
    · exact ⟨[], xs, rfl, hhead x xs⟩
    · obtain ⟨ys, zs, rfl, hjoin⟩ := ih h
      refine ⟨y :: ys, zs, rfl, ?_⟩
      obtain ⟨w, ws, hw⟩ := List.exists_cons_of_ne_nil (l := ys ++ x :: zs) (by simp)
      rw [hw] at hjoin ⊢
      rw [List.intercalate_cons_cons, hjoin, List.flatMap_cons]
      simp only [List.append_assoc]

end PagePress.Text
