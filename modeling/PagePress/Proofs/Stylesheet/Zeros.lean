import Mathlib.Data.List.Chain
import PagePress.Proofs.Text.Blank
import PagePress.Stylesheet.Compact

/-!
Zeros before a decimal point. What is dropped depends on the character before the zeros, and
nothing is dropped behind a character of a name or number; so the text that is left has no zeros
to drop (`unseen_leadingZeros`), and the only characters that stand side by side anew are what
stood before the zeros and the point (`isChain_leadingZeros`).
-/

namespace PagePress.Stylesheet

open Text

theorem leadingZeros?_of_continues {b : Option Char} (h : b.any continues = true) (s : List Char) :
    leadingZeros? b s = none := by
  rw [leadingZeros?, if_pos h]

theorem leadingZeros?_of_ne {c : Char} (h : c ≠ '0') (b : Option Char) (s : List Char) :
    leadingZeros? b (c :: s) = none := by
  unfold leadingZeros?
  split
  · rfl
  · have hnone : Cut.spanSome? (· == '0') (c :: s) = none :=
      Cut.spanSome?_neg (p := (· == '0')) (beq_false_of_ne h) s
    simp only [hnone, Option.bind_eq_bind, Option.bind_none]

/-- What is recognised: zeros, a point and digits, behind nothing that they continue. -/
theorem leadingZeros?_eq_some {b : Option Char} {s a : List Char} {k : Cut s}
    (h : leadingZeros? b s = some (a, k)) : b.any continues = false ∧ ∃ zs d ds,
      k.text = '0' :: zs ++ '.' :: d :: ds ∧ (∀ z ∈ zs, z = '0') ∧
      (∀ c ∈ d :: ds, isDigit c = true) ∧ a = '.' :: d :: ds := by
  unfold leadingZeros? at h
  split at h
  · cases h
  · rename_i hb
    refine ⟨by simpa using hb, ?_⟩
    simp only [Option.bind_eq_bind, Option.bind_eq_some_iff, Option.pure_def, Option.some.injEq,
      Prod.mk.injEq] at h
    obtain ⟨zeros, hzeros, point, hpoint, digits, hdigits, rfl, rfl⟩ := h
    obtain ⟨z, zs, hztext, hz⟩ := Cut.spanSome?_eq_some hzeros
    obtain ⟨d, ds, hdtext, hd⟩ := Cut.spanSome?_eq_some hdigits
    have hpoint := Cut.text_of_char?_beq hpoint
    obtain rfl : z = '0' := by simpa using hz z (by simp)
    refine ⟨zs, d, ds, ?_, fun c hc => by simpa using hz c (by simp [hc]), hd, ?_⟩
    · show zeros.text ++ point.text ++ digits.text = _
      rw [hztext, hpoint, hdtext]
      simp
    · rw [hpoint, hdtext]
      rfl

theorem leadingZeros?_ne_none {b : Option Char} (hb : b.any continues = false) {zs : List Char}
    (hz : ∀ z ∈ zs, z = '0') {d : Char} (hd : isDigit d = true) {s w : List Char}
    (hs : s = '0' :: zs ++ '.' :: d :: w) : leadingZeros? b s ≠ none := by
  subst hs
  obtain ⟨zeros, hzeros, -, hrest⟩ := Cut.spanSome?_gives (p := (· == '0')) (u := zs) (c := '0')
    (v := '.' :: d :: w) rfl (by simpa using hz)
    fun c v hv => by
      rw [← (List.cons.inj hv).1]
      rfl
  obtain ⟨point, hpoint, -, hprest⟩ := Cut.char?_gives (p := (· == '.')) hrest rfl
  have hdigits : Cut.spanSome? isDigit point.rest ≠ none := by
    rw [hprest, Cut.spanSome?_pos hd]
    simp
  obtain ⟨digits, hdigits⟩ := Option.ne_none_iff_exists'.1 hdigits
  simp only [leadingZeros?, hb, hzeros, hpoint, hdigits, Option.bind_eq_bind, Option.bind_some]
  simp

/-! ### Names and numbers -/

/-- A text of ASCII characters. -/
def Ascii (s : List Char) : Prop := ∀ c ∈ s, c.toNat < 0x80

theorem continues_of_isDigit {c : Char} (hc : c.toNat < 0x80) (h : isDigit c = true) :
    continues c = true := by
  have hdigit : c.isDigit = true := by
    by_contra hno
    simp [isDigit, digitValue?, hc, hno] at h
  simp [continues, isWord, hc, Char.isAlphanum, hdigit]

/-- Names and numbers go through as they are. -/
theorem exists_of_replaceFrom_leadingZeros {b : Option Char} (hb : b.any continues = true)
    {s u w : List Char} {d : Char} (hu : ∀ c ∈ u, continues c = true)
    (h : replaceFrom leadingZeros? b s = u ++ d :: w) : ∃ w', s = u ++ d :: w' := by
  induction u generalizing b s with
  | nil =>
    cases s with
    | nil => simp at h
    | cons c s =>
      rw [replaceFrom_of_none (leadingZeros?_of_continues hb _)] at h
      exact ⟨s, by rw [(List.cons.inj h).1]; rfl⟩
  | cons e u ih =>
    cases s with
    | nil => simp at h
    | cons c s =>
      rw [replaceFrom_of_none (leadingZeros?_of_continues hb _), List.cons_append] at h
      obtain ⟨rfl, hout⟩ := List.cons.inj h
      have hc : (some c).any continues = true := hu c (by simp)
      obtain ⟨w', rfl⟩ := ih hc (fun d hd => hu d (by simp [hd])) hout
      exact ⟨w', rfl⟩

/-- No zeros are found where none are in the text before those behind it are dropped. -/
theorem leadingZeros?_cons_replaceFrom {b : Option Char} {c : Char} {s : List Char}
    (h : leadingZeros? b (c :: s) = none) :
    leadingZeros? b (c :: replaceFrom leadingZeros? (some c) s) = none := by
  by_contra hsome
  obtain ⟨⟨a, k⟩, hk⟩ := Option.ne_none_iff_exists'.1 hsome
  obtain ⟨hb, zs, d, ds, htext, hz, hd, -⟩ := leadingZeros?_eq_some hk
  have happend := k.append_eq
  rw [htext] at happend
  obtain ⟨rfl, happend⟩ := List.cons.inj happend
  -- the zeros and the point go through, so they stand in the text
  have hout : replaceFrom leadingZeros? (some '0') s = (zs ++ ['.']) ++ d :: (ds ++ k.rest) := by
    simpa using happend.symm
  have hzeros : ∀ c ∈ zs ++ ['.'], continues c = true := by
    intro c hc
    rcases List.mem_append.1 hc with hc | hc
    · rw [hz c hc]
      decide
    · rw [List.mem_singleton.1 hc]
      decide
  obtain ⟨w, hw⟩ := exists_of_replaceFrom_leadingZeros (b := some '0') (by decide) hzeros hout
  exact leadingZeros?_ne_none hb hz (hd d (by simp)) (w := w) (by rw [hw]; simp) h

theorem unseen_append_of_continues {b : Option Char} {u v : List Char}
    (hb : b.any continues = true) (hu : ∀ c ∈ u, continues c = true)
    (hv : Unseen leadingZeros? (u.getLast?.or b) v) : Unseen leadingZeros? b (u ++ v) := by
  induction u generalizing b with
  | nil => exact hv
  | cons c u ih =>
    refine ⟨leadingZeros?_of_continues hb _,
      ih (by simpa using hu c (by simp)) (fun d hd => hu d (by simp [hd])) ?_⟩
    rw [List.getLast?_cons] at hv
    cases hlast : u.getLast? <;> simpa [hlast] using hv

/-! ### A text without zeros to drop -/

/-- No zeros are left to drop once they are dropped. -/
theorem unseen_leadingZeros {s : List Char} (hs : Ascii s) (b : Option Char) :
    Unseen leadingZeros? b (replaceFrom leadingZeros? b s) := by
  induction hn : s.length using Nat.strongRecOn generalizing s b with
  | _ n ih =>
    cases s with
    | nil => simp [Unseen]
    | cons c s =>
      simp only [List.length_cons] at hn
      cases hr : leadingZeros? b (c :: s) with
      | none =>
        rw [replaceFrom_of_none hr]
        exact ⟨leadingZeros?_cons_replaceFrom hr,
          ih _ (by omega) (fun d hd => hs d (by simp [hd])) _ rfl⟩
      | some x =>
        obtain ⟨a, k⟩ := x
        obtain ⟨hb, zs, d, ds, htext, hz, hd, rfl⟩ := leadingZeros?_eq_some hr
        rw [replaceFrom_of_some (by simp) hr htext]
        have hk := k.append_eq
        have hlen := congrArg List.length hk
        rw [htext] at hlen
        simp only [List.length_append, List.length_cons] at hlen
        have hrest : ∀ c ∈ k.rest, c.toNat < 0x80 := fun c hc => hs c (k.mem_of_mem_rest hc)
        have hdigits : ∀ c ∈ d :: ds, continues c = true := fun c hc =>
          continues_of_isDigit (hs c (k.mem_of_mem_text (by rw [htext]; simp_all))) (hd c hc)
        refine ⟨leadingZeros?_of_ne (by decide) _ _, ?_⟩
        refine unseen_append_of_continues (u := d :: ds) (by decide) hdigits ?_
        have hlast : ('0' :: zs ++ '.' :: d :: ds).getLast?.or b = (d :: ds).getLast?.or (some '.') := by
          rw [List.getLast?_append_of_ne_nil _ (by simp), List.getLast?_cons_cons,
            List.getLast?_eq_some_getLast (by simp)]
          rfl
        rw [hlast]
        exact ih _ (by omega) hrest _ rfl

/-- What stands side by side when zeros are dropped did so before, or it is the point and what the
zeros followed. -/
theorem isChain_leadingZeros {R : Char → Char → Prop} (hR : ∀ a, R a '.') {s : List Char}
    {b : Option Char} (h : (b.toList ++ s).IsChain R) :
    (b.toList ++ replaceFrom leadingZeros? b s).IsChain R := by
  induction hn : s.length using Nat.strongRecOn generalizing s b with
  | _ n ih =>
    have hcons : ∀ {c : Char} {t : List Char}, (∀ x ∈ b, R x c) → (c :: t).IsChain R →
        (b.toList ++ c :: t).IsChain R := by
      intro c t hb ht
      cases b with
      | none => exact ht
      | some x => exact List.isChain_cons_cons.2 ⟨hb x rfl, ht⟩
    cases s with
    | nil => simpa using h
    | cons c s =>
      simp only [List.length_cons] at hn
      cases hr : leadingZeros? b (c :: s) with
      | none =>
        rw [replaceFrom_of_none hr]
        refine hcons (fun x hx => ?_) (ih s.length (by omega) (b := some c) h.right_of_append rfl)
        rw [Option.mem_def.1 hx] at h
        exact h.rel_head? rfl
      | some x =>
        obtain ⟨a, k⟩ := x
        obtain ⟨-, zs, d, ds, htext, -, -, rfl⟩ := leadingZeros?_eq_some hr
        rw [replaceFrom_of_some (by simp) hr htext]
        have hk := k.append_eq
        have hlen := congrArg List.length hk
        rw [htext] at hlen
        simp only [List.length_append, List.length_cons] at hlen
        obtain ⟨es, e, hdigits⟩ : ∃ es e, '.' :: d :: ds = es ++ [e] :=
          ⟨_, _, (List.dropLast_concat_getLast (by simp)).symm⟩
        have hs : ('0' :: zs ++ (es ++ [e]) ++ k.rest).IsChain R := by
          rw [← hdigits, ← htext, hk]
          exact h.right_of_append
        have hlast : ('0' :: zs ++ '.' :: d :: ds).getLast?.or b = some e := by
          rw [hdigits, ← List.append_assoc, List.getLast?_concat]
          rfl
        rw [hlast]
        refine hcons (fun x _ => hR x) ?_
        show ('.' :: d :: ds ++ _).IsChain R
        rw [hdigits]
        have hes : (es ++ [e]).IsChain R := hs.infix ⟨'0' :: zs, k.rest, rfl⟩
        refine hes.append_overlap ?_ (by simp)
        exact ih k.rest.length (by omega) (b := some e)
          (hs.suffix ⟨'0' :: zs ++ es, by simp⟩) rfl

/-! ### Parts of a text -/

theorem unseen_leadingZeros_congr {b b' : Option Char} (h : b.any continues = b'.any continues)
    {s : List Char} (hs : Unseen leadingZeros? b s) : Unseen leadingZeros? b' s := by
  cases s with
  | nil => trivial
  | cons c s => exact ⟨by rw [leadingZeros?, ← h]; exact hs.1, hs.2⟩

theorem unseen_leadingZeros_prefix {b : Option Char} {s t : List Char}
    (h : Unseen leadingZeros? b (s ++ t)) : Unseen leadingZeros? b s := by
  induction s generalizing b with
  | nil => trivial
  | cons c s ih =>
    refine ⟨?_, ih h.2⟩
    by_contra hsome
    obtain ⟨⟨a, k⟩, hk⟩ := Option.ne_none_iff_exists'.1 hsome
    obtain ⟨hb, zs, d, ds, htext, hz, hd, -⟩ := leadingZeros?_eq_some hk
    have hk := k.append_eq
    rw [htext] at hk
    refine leadingZeros?_ne_none hb hz (hd d (by simp)) (w := ds ++ (k.rest ++ t)) ?_ h.1
    simpa using congrArg (· ++ t) hk.symm

/-- White space at the ends hides no zeros. -/
theorem unseen_trim {s : List Char} (hs : ∀ c ∈ s, isBlank c = true → c = ' ')
    (h : Unseen leadingZeros? none s) : Unseen leadingZeros? none (trim s) := by
  have hstart : Unseen leadingZeros? none (trimStart s) := by
    induction s with
    | nil => exact h
    | cons c s ih =>
      by_cases hc : isBlank c = true
      · obtain rfl := hs c (by simp) hc
        rw [trimStart, List.dropWhile_cons_of_pos hc]
        exact ih (fun d hd => hs d (by simp [hd])) (unseen_leadingZeros_congr (by decide) h.2)
      · rw [trimStart, List.dropWhile_cons_of_neg hc]
        exact h
  obtain ⟨t, ht⟩ := isPrefix_trimEnd (trimStart s)
  rw [← ht] at hstart
  exact unseen_leadingZeros_prefix hstart

end PagePress.Stylesheet
