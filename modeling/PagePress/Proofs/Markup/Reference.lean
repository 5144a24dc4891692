import PagePress.Html.Escape
import PagePress.Proofs.Reduce

/-!
Character references. A reader of a value puts the characters in their place (`decode`), and so
gets back the text that was escaped, whether or not the value was tidied in between
(`decode_tidy_escape`).
-/

namespace PagePress.Markup

open Text Html

/-! ### The reader -/

/-- The references with a name, and what they stand for. -/
def namedReferences : List (String × Char) :=
  [("amp;", '&'), ("lt;", '<'), ("gt;", '>'), ("quot;", '"'), ("apos;", '\'')]

/-- Takes the name of a reference. -/
def named? (s : List Char) : Option (Char × Cut s) :=
  namedReferences.findSome? fun (name, c) => (Cut.word? name s).map fun k => (c, k)

/-- Takes the decimal number of a character. -/
def numbered? (s : List Char) : Option (Char × Cut s) := do
  let mark ← Cut.char? (· == '#') s
  let digits ← Cut.spanSome? Char.isDigit mark.rest
  let close ← Cut.char? (· == ';') digits.rest
  let number := digits.text.foldl (fun n d => 10 * n + (d.toNat - 0x30)) 0
  return (.ofNat number, (mark.andThen digits).andThen close)

/-- Recognises a reference to a character. -/
def reference? : Recognizer (List Char) := fun _ s => do
  let mark ← Cut.char? (· == '&') s
  let (c, k) ← (named? mark.rest).orElse fun _ => numbered? mark.rest
  return ([c], mark.andThen k)

/-- A text with the characters that are referred to in the place of the references. -/
def decode (s : List Char) : List Char := replaceAll reference? s

/-! ### Escaped texts -/

theorem takes_reference {u : List Char} {c : Char} (h : ∀ v, ∃ k : Cut (u ++ v),
    (named? (u ++ v)).orElse (fun _ => numbered? (u ++ v)) = some (c, k) ∧ k.text = u) :
    Takes reference? ('&' :: u) [c] := by
  refine takes_of_eq (fun _ _ => rfl) (by simp) fun v => ?_
  obtain ⟨k, hk, ht⟩ := h v
  have hmark : Cut.char? (· == '&') ('&' :: u ++ v) = some ⟨['&'], u ++ v, rfl⟩ :=
    Cut.char?_pos (by decide) _
  refine ⟨Cut.andThen ⟨['&'], u ++ v, rfl⟩ k, ?_, ?_⟩
  · simp only [reference?, hmark, Option.bind_eq_bind, Option.bind_some, hk]
    rfl
  · show '&' :: k.text = '&' :: u
    rw [ht]

theorem takes_escapeChar {c : Char} (hc : c ∈ ['&', '<', '>', '\'', '"']) :
    Takes reference? (escapeChar c) [c] := by
  simp only [List.mem_cons, List.not_mem_nil, or_false] at hc
  rcases hc with rfl | rfl | rfl | rfl | rfl
  · exact takes_reference (u := "amp;".toList) fun v => ⟨⟨"amp;".toList, v, rfl⟩, rfl, rfl⟩
  · exact takes_reference (u := "lt;".toList) fun v => ⟨⟨"lt;".toList, v, rfl⟩, rfl, rfl⟩
  · exact takes_reference (u := "gt;".toList) fun v => ⟨⟨"gt;".toList, v, rfl⟩, rfl, rfl⟩
  · exact takes_reference (u := "#39;".toList) fun v => ⟨⟨"#39;".toList, v, rfl⟩, rfl, rfl⟩
  · exact takes_reference (u := "#34;".toList) fun v => ⟨⟨"#34;".toList, v, rfl⟩, rfl, rfl⟩

theorem replaceAll_escapeChar (c : Char) (v : List Char) :
    replaceAll reference? (escapeChar c ++ v) = c :: replaceAll reference? v := by
  by_cases hc : c ∈ ['&', '<', '>', '\'', '"']
  · exact (takes_escapeChar hc).replaceAll v
  · simp only [List.mem_cons, List.not_mem_nil, or_false, not_or] at hc
    obtain ⟨h1, h2, h3, h4, h5⟩ := hc
    have hnone : reference? none (c :: v) = none := by
      have hmark : Cut.char? (· == '&') (c :: v) = none := Cut.char?_neg (by simpa using h1) v
      simp only [reference?, hmark, Option.bind_eq_bind, Option.bind_none]
    have hescape : escapeChar c = [c] := by
      unfold escapeChar
      split <;> simp_all
    rw [hescape, List.singleton_append, replaceAll_of_none (fun _ _ => rfl) hnone]

/-- An escaped text is read as the text. -/
theorem decode_escape (s : List Char) : decode (escape s) = s := by
  induction s with
  | nil => exact replaceAll_nil reference?
  | cons c s ih =>
    rw [escape, List.flatMap_cons, decode, replaceAll_escapeChar]
    exact congrArg (c :: ·) ih

/-! ### Tidied texts -/

/-- An escaped character is the character itself, or made of characters that stay. -/
theorem escapeChar_cases (c : Char) : escapeChar c = [c] ∨
    isBlank c = false ∧ c ≠ '\x00' ∧ escapeChar c ≠ [] ∧
      ∀ d ∈ escapeChar c, isBlank d = false ∧ d ≠ '\x00' := by
  unfold escapeChar
  split
  · exact .inr (by decide)
  · exact .inr (by decide)
  · exact .inr (by decide)
  · exact .inr (by decide)
  · exact .inr (by decide)
  · exact .inl rfl

theorem dropNul_escape (s : List Char) : Shield.dropNul (escape s) = escape (Shield.dropNul s) := by
  induction s with
  | nil => rfl
  | cons c s ih =>
    have hcons : escape (c :: s) = escapeChar c ++ escape s := List.flatMap_cons
    rw [hcons, dropNul_append, ih]
    by_cases hc : c = '\x00'
    · subst hc
      rfl
    · have hkeep : Shield.dropNul (escapeChar c) = escapeChar c := by
        refine dropNul_of_not_mem fun hm => ?_
        rcases escapeChar_cases c with h | ⟨-, -, -, h⟩
        · rw [h] at hm
          exact hc (List.mem_singleton.1 hm).symm
        · exact (h _ hm).2 rfl
      have hdrop : Shield.dropNul (c :: s) = c :: Shield.dropNul s := by simp [Shield.dropNul, hc]
      rw [hkeep, hdrop]
      rfl

theorem collapseFrom_solid {u : List Char} (hne : u ≠ []) (h : ∀ c ∈ u, isBlank c = false) (b : Bool)
    (v : List Char) : collapseFrom b (u ++ v) = u ++ collapse v := by
  obtain ⟨c, u, rfl⟩ := List.exists_cons_of_ne_nil hne
  rw [List.cons_append, collapseFrom_of_not_blank (h c (by simp))]
  cases u with
  | nil => rfl
  | cons d u =>
    have hsolid := endsSolid_of_forall (s := d :: u) (by simp) fun x hx => h x (List.mem_cons_of_mem _ hx)
    rw [hsolid.collapse_append, collapse_of_forall fun x hx => h x (List.mem_cons_of_mem _ hx)]
    rfl

theorem collapseFrom_escape (b : Bool) (s : List Char) :
    collapseFrom b (escape s) = escape (collapseFrom b s) := by
  induction s generalizing b with
  | nil => rfl
  | cons c s ih =>
    have hcons : ∀ c s, escape (c :: s) = escapeChar c ++ escape s := fun _ _ => List.flatMap_cons
    have hspace : escapeChar ' ' = [' '] := rfl
    rw [hcons]
    by_cases hc : isBlank c = true
    · have hescape : escapeChar c = [c] := by
        rcases escapeChar_cases c with h | ⟨h, -⟩
        · exact h
        · rw [h] at hc
          cases hc
      rw [hescape, List.singleton_append]
      cases b with
      | false => simp only [collapseFrom, hc, if_true, Bool.false_eq_true, if_false, ih, hcons, hspace,
          List.singleton_append]
      | true => simp only [collapseFrom, hc, if_true, ih]
    · have hc : isBlank c = false := by simpa using hc
      have hsolid : escapeChar c ≠ [] ∧ ∀ d ∈ escapeChar c, isBlank d = false := by
        rcases escapeChar_cases c with h | ⟨-, -, h, h'⟩
        · rw [h]
          simpa using hc
        · exact ⟨h, fun d hd => (h' d hd).1⟩
      rw [collapseFrom_solid hsolid.1 hsolid.2, collapseFrom_of_not_blank hc, hcons]
      exact congrArg _ (ih false)

theorem tidy_escape (s : List Char) : tidy (escape s) = escape (tidy s) := by
  rw [tidy, dropNul_escape, collapse, collapseFrom_escape]
  rfl

/-- A tidied value is read as the tidied text. -/
theorem decode_tidy_escape (s : List Char) : decode (tidy (escape s)) = tidy s := by
  rw [tidy_escape, decode_escape]

theorem tidy_tidy (s : List Char) : tidy (tidy s) = tidy s := by
  have hnul : '\x00' ∉ collapse (Shield.dropNul s) := by
    intro hm
    rcases mem_collapse hm with hm | hm
    · exact nul_not_mem_dropNul s hm
    · exact absurd hm (by decide)
  rw [tidy, tidy, dropNul_of_not_mem hnul, collapse_collapse]

end PagePress.Markup
