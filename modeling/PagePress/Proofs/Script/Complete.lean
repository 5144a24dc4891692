import PagePress.Proofs.Json
import PagePress.Proofs.Script

/-!
Parts of a script that are complete: every literal in them is closed, and outside of literals no
slash could begin a comment. What follows such a part is read as if it stood alone
(`Complete.tokens_append`). Complete parts hold none of the characters that a document minds either.
-/

namespace PagePress.Script

open Text

/-! ### Complete parts -/

/-- A character that means nothing to the document around a script and is no carriage return. -/
def isScriptChar (c : Char) : Bool := c != '<' && c != '>' && c != '\x00' && c != '\r'

/-- What stands in a literal between its marks. A backslash takes the next character with it. -/
inductive LiteralBody (mark : Char) : List Char → Prop where
  | nil : LiteralBody mark []
  | plain {c : Char} {s : List Char} (hc : isScriptChar c = true) (hmark : c ≠ mark) (hslash : c ≠ '\\')
      (hline : c ≠ '\n') (h : LiteralBody mark s) : LiteralBody mark (c :: s)
  | escape {c : Char} {s : List Char} (hc : isScriptChar c = true) (h : LiteralBody mark s) :
      LiteralBody mark ('\\' :: c :: s)

/-- A part of a script all of whose literals are closed. -/
inductive Complete : List Char → Prop where
  | nil : Complete []
  | char {c : Char} {s : List Char} (hc : isScriptChar c = true) (hquote : isQuote c = false)
      (hslash : c ≠ '/') (h : Complete s) : Complete (c :: s)
  | literal {q : Char} {u s : List Char} (hq : isQuote q = true) (hu : LiteralBody q u)
      (h : Complete s) : Complete (q :: (u ++ q :: s))

theorem LiteralBody.append {q : Char} {u v : List Char} (hu : LiteralBody q u) (hv : LiteralBody q v) :
    LiteralBody q (u ++ v) := by
  induction hu with
  | nil => exact hv
  | plain hc hmark hslash hline _ ih => exact .plain hc hmark hslash hline ih
  | escape hc _ ih => exact .escape hc ih

theorem LiteralBody.isScriptChar {q : Char} {u : List Char} (h : LiteralBody q u) :
    ∀ c ∈ u, isScriptChar c = true := by
  induction h with
  | nil => simp
  | plain hc _ _ _ _ ih => simpa [hc] using ih
  | escape hc _ ih => simpa [hc, show Script.isScriptChar '\\' = true by decide] using ih

theorem Complete.append {a b : List Char} (ha : Complete a) (hb : Complete b) : Complete (a ++ b) := by
  induction ha with
  | nil => exact hb
  | char hc hquote hslash _ ih => exact .char hc hquote hslash ih
  | @literal q u s hq hu _ ih =>
    rw [List.cons_append, List.append_assoc, List.cons_append]
    exact .literal hq hu ih

theorem complete_flatMap {α : Type} {f : α → List Char} {as : List α} (h : ∀ a ∈ as, Complete (f a)) :
    Complete (as.flatMap f) := by
  induction as with
  | nil => exact .nil
  | cons a as ih =>
    rw [List.flatMap_cons]
    exact (h a (by simp)).append (ih fun x hx => h x (by simp [hx]))

theorem complete_intercalate {sep : List Char} (hsep : Complete sep) {xs : List (List Char)}
    (h : ∀ x ∈ xs, Complete x) : Complete (List.intercalate sep xs) := by
  induction xs with
  | nil => exact .nil
  | cons x xs ih =>
    have ih := ih fun y hy => h y (by simp [hy])
    have hx := h x (by simp)
    cases xs with
    | nil => rwa [List.intercalate_singleton]
    | cons y xs =>
      rw [List.intercalate_cons_cons, List.append_assoc]
      exact hx.append (hsep.append ih)

theorem isScriptChar_of_isQuote {q : Char} (h : isQuote q = true) : isScriptChar q = true := by
  simp only [isQuote, Bool.or_eq_true, beq_iff_eq] at h
  rcases h with (rfl | rfl) | rfl <;> decide

theorem Complete.isScriptChar {s : List Char} (h : Complete s) : ∀ c ∈ s, isScriptChar c = true := by
  induction h with
  | nil => simp
  | char hc _ _ _ ih => simpa [hc] using ih
  | @literal q u s hq hu _ ih =>
    intro c hc
    have hquote := isScriptChar_of_isQuote hq
    rcases List.mem_cons.1 hc with rfl | hc
    · exact hquote
    · rcases List.mem_append.1 hc with hc | hc
      · exact hu.isScriptChar c hc
      · rcases List.mem_cons.1 hc with rfl | hc
        · exact hquote
        · exact ih c hc

/-! ### A check -/

/-- The place between two characters of a script: between tokens, in a literal, or behind a
backslash in one. -/
inductive Mode where
  | code
  | literal (mark : Char)
  | escape (mark : Char)

/-- The rest of a part is complete. -/
def Mode.completes : Mode → List Char → Bool
  | code, [] => true
  | _, [] => false
  | code, c :: s =>
    isScriptChar c && if isQuote c then (literal c).completes s else c != '/' && code.completes s
  | literal q, c :: s =>
    isScriptChar c &&
      if c = '\\' then (escape q).completes s
      else if c = q then code.completes s
      else c != '\n' && (literal q).completes s
  | escape q, c :: s => isScriptChar c && (literal q).completes s

/-- What the check promises of the rest of a part. -/
def Mode.Promise : Mode → List Char → Prop
  | code, s => Complete s
  | literal q, s => ∃ u r, s = u ++ q :: r ∧ LiteralBody q u ∧ Complete r
  | escape q, s => ∃ c u r, s = c :: (u ++ q :: r) ∧ isScriptChar c = true ∧ LiteralBody q u ∧ Complete r

theorem Mode.promise_of_completes : ∀ (s : List Char) (m : Mode), m.completes s = true → m.Promise s
  | [], code, _ => .nil
  | c :: s, code, h => by
    simp only [completes, Bool.and_eq_true] at h
    obtain ⟨hc, h⟩ := h
    split at h
    · rename_i hq
      obtain ⟨u, r, rfl, hu, hr⟩ := promise_of_completes s (literal c) h
      exact .literal hq hu hr
    · rename_i hq
      simp only [Bool.and_eq_true, bne_iff_ne] at h
      exact .char hc (by simpa using hq) h.1 (promise_of_completes s code h.2)
  | c :: s, literal q, h => by
    simp only [completes, Bool.and_eq_true] at h
    obtain ⟨hc, h⟩ := h
    split at h
    · rename_i hslash
      obtain ⟨d, u, r, rfl, hd, hu, hr⟩ := promise_of_completes s (escape q) h
      exact ⟨'\\' :: d :: u, r, by simp [hslash], .escape hd hu, hr⟩
    · rename_i hslash
      split at h
      · rename_i hq
        exact ⟨[], s, by simp [hq], .nil, promise_of_completes s code h⟩
      · rename_i hq
        simp only [Bool.and_eq_true, bne_iff_ne] at h
        obtain ⟨u, r, rfl, hu, hr⟩ := promise_of_completes s (literal q) h.2
        exact ⟨c :: u, r, rfl, .plain hc hq hslash h.1 hu, hr⟩
  | c :: s, escape q, h => by
    simp only [completes, Bool.and_eq_true] at h
    obtain ⟨u, r, rfl, hu, hr⟩ := promise_of_completes s (literal q) h.2
    exact ⟨c, u, r, rfl, h.1, hu, hr⟩

/-- A text given as a literal is complete if its characters pass the check. -/
theorem complete_toList {s : String} {l : List Char} (hs : s = .ofList l)
    (h : Mode.code.completes l = true) : Complete s.toList := by
  rw [hs, String.toList_ofList]
  exact Mode.promise_of_completes l .code h

/-! ### Tokens -/

theorem literalRest_of_body {q : Char} (hq : q ≠ '\\') {u : List Char} (h : LiteralBody q u)
    (v : List Char) : literalRest q (u ++ q :: v) = (u ++ [q], v) := by
  induction h with
  | nil =>
    rw [List.nil_append, literalRest.eq_def]
    split <;> simp_all
  | @plain c s hc hmark hslash hline _ ih =>
    have hnext : literalRest q (c :: (s ++ q :: v)) =
        (c :: (literalRest q (s ++ q :: v)).1, (literalRest q (s ++ q :: v)).2) := by
      rw [literalRest.eq_def]
      split <;> simp_all
    rw [List.cons_append, hnext, ih]
    rfl
  | @escape c s _ _ ih =>
    rw [List.cons_append, List.cons_append, literalRest, ih]
    rfl

@[simp] theorem tokens_nil : tokens [] = [] := by rw [tokens]

theorem ne_of_isQuote {q : Char} (h : isQuote q = true) : q ≠ '/' ∧ q ≠ '\\' ∧ isBlank q = false := by
  simp only [isQuote, Bool.or_eq_true, beq_iff_eq] at h
  rcases h with (rfl | rfl) | rfl <;> decide

/-- Where no comment begins, the first character tells what is read. -/
theorem tokens_cons {c : Char} {s : List Char}
    (h : c = '/' → ∀ d, s.head? = some d → d ≠ '/' ∧ d ≠ '*') :
    tokens (c :: s) =
      if isQuote c then .literal (c :: (literalRest c s).1) :: tokens (literalRest c s).2
      else if isBlank c then .blank (c :: s.takeWhile isBlank) :: tokens (s.dropWhile isBlank)
      else .char c :: tokens s := by
  rw [tokens.eq_def]
  split
  · rename_i he
    cases he
  · rename_i rest he
    obtain ⟨rfl, rfl⟩ := List.cons.inj he
    exact absurd rfl (h rfl '/' rfl).1
  · rename_i rest he
    obtain ⟨rfl, rfl⟩ := List.cons.inj he
    exact absurd rfl (h rfl '*' rfl).2
  · rename_i d rest _ _ he
    obtain ⟨rfl, rfl⟩ := List.cons.inj he
    rfl

theorem tokens_of_isQuote {q : Char} (hq : isQuote q = true) (s : List Char) :
    tokens (q :: s) = .literal (q :: (literalRest q s).1) :: tokens (literalRest q s).2 := by
  rw [tokens_cons fun h => absurd h (ne_of_isQuote hq).1, if_pos hq]

theorem tokens_of_quote {q : Char} (hq : isQuote q = true) {u : List Char} (hu : LiteralBody q u)
    (v : List Char) : tokens (q :: (u ++ q :: v)) = .literal (q :: (u ++ [q])) :: tokens v := by
  rw [tokens_of_isQuote hq, literalRest_of_body (ne_of_isQuote hq).2.1 hu]

theorem tokens_of_blank {c : Char} (hc : isBlank c = true) (s : List Char) :
    tokens (c :: s) = .blank (c :: s.takeWhile isBlank) :: tokens (s.dropWhile isBlank) := by
  have hslash : c ≠ '/' := by
    rintro rfl
    exact absurd hc (by decide)
  have hquote : ¬ isQuote c = true := fun hq => by
    rw [(ne_of_isQuote hq).2.2] at hc
    cases hc
  rw [tokens_cons fun h => absurd h hslash, if_neg hquote, if_pos hc]

/-- A character that begins no comment, no literal and no white space is a token by itself. -/
theorem tokens_of_char {c : Char} (hquote : isQuote c = false) (hblank : isBlank c = false) {s : List Char}
    (h : c = '/' → ∀ d, s.head? = some d → d ≠ '/' ∧ d ≠ '*') : tokens (c :: s) = .char c :: tokens s := by
  rw [tokens_cons h, if_neg (by simp [hquote]), if_neg (by simp [hblank])]

theorem tokens_of_solid {c : Char} (h1 : c ≠ '/') (h2 : isQuote c = false) (h3 : isBlank c = false)
    (s : List Char) : tokens (c :: s) = .char c :: tokens s :=
  tokens_of_char h2 h3 fun h => absurd h h1

/-- White space at the end of the one text does not run together with the start of the other. -/
def Apart (a v : List Char) : Prop :=
  (∀ c, a.getLast? = some c → isBlank c = false) ∨ ∀ c, v.head? = some c → isBlank c = false

theorem Apart.of_cons {c : Char} {a v : List Char} (h : Apart (c :: a) v) : Apart a v := by
  rcases h with h | h
  · left
    intro d hd
    refine h d ?_
    rw [List.getLast?_cons, hd]
    rfl
  · exact .inr h

/-- The tokens of a complete part do not depend on what follows it. -/
theorem Complete.tokens_append {a : List Char} (ha : Complete a) {v : List Char} (h : Apart a v) :
    tokens (a ++ v) = tokens a ++ tokens v := by
  induction ha with
  | nil => simp
  | @literal q u s hq hu _ ih =>
    have hs : Apart s v := by
      rcases h with h | h
      · left
        intro d hd
        refine h d ?_
        rw [List.getLast?_cons, List.getLast?_append, List.getLast?_cons, hd]
        rfl
      · exact .inr h
    rw [List.cons_append, List.append_assoc, List.cons_append, tokens_of_quote hq hu,
      tokens_of_quote hq hu, ih hs]
    rfl
  | @char c s hc hquote hslash _ ih =>
    have ih := ih h.of_cons
    cases hb : isBlank c with
    | false =>
      rw [List.cons_append, tokens_of_solid hslash hquote hb, tokens_of_solid hslash hquote hb, ih]
      rfl
    | true =>
      rw [List.cons_append, tokens_of_blank hb, tokens_of_blank hb]
      cases s with
      | nil =>
        have hv : ∀ d w, v = d :: w → isBlank d = false := by
          rintro d w rfl
          rcases h with h | h
          · rw [h c rfl] at hb
            cases hb
          · exact h d rfl
        cases v with
        | nil => simp
        | cons d w => simp [hv d w rfl]
      | cons d s =>
        cases hd : isBlank d with
        | false => simpa [hd] using ih
        | true =>
          -- the run of white space goes on, and the tokens behind it are those behind the shorter run
          rw [List.cons_append, tokens_of_blank hd, tokens_of_blank hd, List.cons_append] at ih
          obtain ⟨hrun, htail⟩ := List.cons.inj ih
          injection hrun with hrun
          obtain ⟨-, hrun⟩ := List.cons.inj hrun
          simp [hd, hrun, htail]

/-! ### Literals -/

theorem isScriptChar_of_isWritten {c : Char} (h : Json.isWritten c = true) : isScriptChar c = true := by
  simp only [isScriptChar, Bool.and_eq_true, bne_iff_ne]
  refine ⟨⟨⟨?_, ?_⟩, ?_⟩, ?_⟩ <;>
    · rintro rfl
      exact absurd h (by decide)

theorem literalBody_hexDigits (width n : Nat) : LiteralBody '"' (Text.hexDigits width n) := by
  have hdigit : ∀ n < 16, LiteralBody '"' [Text.hexDigit n] := by
    intro n hn
    have key : ∀ n < 16, isScriptChar (Text.hexDigit n) = true ∧ Text.hexDigit n ≠ '"' ∧
        Text.hexDigit n ≠ '\\' ∧ Text.hexDigit n ≠ '\n' := by decide
    obtain ⟨h1, h2, h3, h4⟩ := key n hn
    exact .plain h1 h2 h3 h4 .nil
  induction width generalizing n with
  | zero => exact .nil
  | succ width ih => exact (ih _).append (hdigit _ (Nat.mod_lt _ (by decide)))

theorem literalBody_literalChar (c : Char) : LiteralBody '"' (Json.literalChar c) := by
  unfold Json.literalChar
  cases h : Json.shortEscape? c with
  | some u =>
    unfold Json.shortEscape? at h
    split at h <;> simp only [Option.some.injEq, reduceCtorEq] at h <;> subst h <;>
      exact .escape (by decide) .nil
  | none =>
    dsimp only
    split
    · rename_i hp
      have hne : ∀ d, Json.shortEscape? d ≠ none → c ≠ d := by
        rintro d hd rfl
        exact hd h
      exact .plain (isScriptChar_of_isWritten hp) (hne _ (by decide)) (hne _ (by decide))
        (hne _ (by decide)) .nil
    · have hunit : ∀ n, LiteralBody '"' (Json.unitEscape n) := fun n =>
        .escape (by decide) (literalBody_hexDigits 4 n)
      generalize Text.charUnits c = units
      induction units with
      | nil => exact .nil
      | cons n units ih => exact (hunit n).append ih

theorem literalBody_flatMap (s : List Char) : LiteralBody '"' (s.flatMap Json.literalChar) := by
  induction s with
  | nil => exact .nil
  | cons c s ih => exact (literalBody_literalChar c).append ih

theorem literal_eq (s : List Char) :
    Json.literal s = '"' :: (s.flatMap Json.literalChar ++ '"' :: []) := rfl

/-- A string literal is complete, and one token. -/
theorem complete_literal (s : List Char) : Complete (Json.literal s) :=
  .literal (by decide) (literalBody_flatMap s) .nil

theorem tokens_literal (s : List Char) : tokens (Json.literal s) = [.literal (Json.literal s)] := by
  rw [literal_eq, tokens_of_quote (by decide) (literalBody_flatMap s), tokens_nil]

theorem apart_literal (s v : List Char) : Apart (Json.literal s) v := by
  left
  intro c hc
  rw [Json.literal, List.getLast?_append] at hc
  obtain rfl : '"' = c := by simpa using hc
  decide

end PagePress.Script
