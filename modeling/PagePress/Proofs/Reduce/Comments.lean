import PagePress.Inspect.Markup
import PagePress.Proofs.Markup.Parts
import PagePress.Proofs.Markup.Shield
import PagePress.Reduce.Comments

/-!
Comments of documents. A comment of a well-formed document ends at the first `-->` and is not
conditional, so both the reduction and the inspection take it away as a whole and take away
nothing else.
-/

namespace PagePress.Markup

open Text Html

/-- A recogniser that takes away comments. -/
structure TakesComments (r : Recognizer (List Char)) : Prop where
  contextFree : ContextFree r
  none : ∀ s, Cut.word? "<!--" s = none → r none s = none
  takes : ∀ s : List Char, (∀ c ∈ s, isTextChar c = true ∧ c ≠ '-' ∧ c ≠ '[' ∧ c ≠ '\x00') →
    Takes r (Tag.text (ε := Element) (.comment s)) []

/-- What a recogniser of comments takes. -/
def commentsOnly {ε : Type} : Tag ε → Option (List Char)
  | .comment _ => some []
  | _ => none

/-! ### Recognisers -/

section

variable {s v : List Char} (hs : ∀ c ∈ s, isTextChar c = true ∧ c ≠ '-' ∧ c ≠ '[' ∧ c ≠ '\x00')
include hs

/-- The three parts of a comment are found one after the other. -/
theorem comment_gives {t : List Char}
    (ht : t = '<' :: '!' :: '-' :: '-' :: (s ++ '-' :: '-' :: '>' :: v)) :
    ∃ k1 : Cut t, Cut.word? "<!--" t = some k1 ∧ k1.rest = s ++ '-' :: '-' :: '>' :: v ∧
      ∃ k2, Cut.before? (fun t => (Cut.word? "-->" t).isSome) k1.rest = some k2 ∧ k2.text = s ∧
        ∃ k3, Cut.word? "-->" k2.rest = some k3 ∧
          k1.text ++ k2.text ++ k3.text = '<' :: '!' :: '-' :: '-' :: s ++ ['-', '-', '>'] := by
  obtain ⟨k1, h1, t1, r1⟩ := Cut.word?_gives (s := t) (w := "<!--")
    (v := s ++ '-' :: '-' :: '>' :: v) ht
  have hstop : ∀ x c y, s = x ++ c :: y →
      (Cut.word? "-->" (c :: y ++ '-' :: '-' :: '>' :: v)).isSome = false := by
    intro x c y e
    have hc : ('-' == c) = false := by
      have := (hs c (by simp [e])).2.1
      simpa using this.symm
    simp [Cut.word?, Cut.wordBy?, hc]
  obtain ⟨k2, h2, t2, r2⟩ := Cut.before?_gives (p := fun t => (Cut.word? "-->" t).isSome) r1 hstop
    (by obtain ⟨k, hk, -⟩ := Cut.word?_gives (s := '-' :: '-' :: '>' :: v) (w := "-->") (v := v) rfl
        rw [hk]
        rfl)
  obtain ⟨k3, h3, t3, -⟩ := Cut.word?_gives (w := "-->") (v := v) r2
  exact ⟨k1, h1, r1, k2, h2, t2, k3, h3, by simp [t1, t2, t3]⟩

/-- A comment of a well-formed document is not conditional. -/
theorem isConditional_comment : Reduce.isConditional (s ++ '-' :: '-' :: '>' :: v) = false := by
  have hstart : ∃ c w, s ++ '-' :: '-' :: '>' :: v = c :: w ∧ c ≠ '[' ∧ c ≠ '<' := by
    cases s with
    | nil => exact ⟨'-', _, rfl, by decide, by decide⟩
    | cons c s =>
      have hc := hs c (by simp)
      refine ⟨c, _, rfl, hc.2.2.1, ?_⟩
      rintro rfl
      exact absurd hc.1 (by decide)
  obtain ⟨c, w, hw, h1, h2⟩ := hstart
  have e1 : ('[' == c) = false := by simpa using h1.symm
  have e2 : ('<' == c) = false := by simpa using h2.symm
  rw [hw]
  simp [Reduce.isConditional, Cut.word?, Cut.wordBy?, e1, e2]

end

theorem takesComments_reduce : TakesComments Reduce.comment? where
  contextFree _ _ := rfl
  none s h := by simp [Reduce.comment?, h]
  takes s hs := by
    refine takes_of_eq (fun _ _ => rfl) (by simp [Tag.text]) fun v => ?_
    obtain ⟨k1, h1, r1, k2, h2, -, k3, h3, ht⟩ :=
      comment_gives (t := Tag.text (ε := Element) (.comment s) ++ v) (v := v) hs (by simp [Tag.text])
    have hcond := isConditional_comment (v := v) hs
    rw [← r1] at hcond
    refine ⟨(k1.andThen k2).andThen k3, ?_, ht⟩
    simp only [Reduce.comment?, h1, h2, h3, hcond, Option.bind_eq_bind, Option.bind_some,
      Bool.false_eq_true, if_false]
    rfl

theorem takesComments_inspect : TakesComments Inspect.anyComment? where
  contextFree _ _ := rfl
  none s h := by simp [Inspect.anyComment?, h]
  takes s hs := by
    refine takes_of_eq (fun _ _ => rfl) (by simp [Tag.text]) fun v => ?_
    obtain ⟨k1, h1, r1, k2, h2, -, k3, h3, ht⟩ :=
      comment_gives (t := Tag.text (ε := Element) (.comment s) ++ v) (v := v) hs (by simp [Tag.text])
    refine ⟨(k1.andThen k2).andThen k3, ?_, ht⟩
    simp only [Inspect.anyComment?, h1, h2, h3, Option.bind_eq_bind, Option.bind_some]
    rfl

/-! ### Documents -/

namespace TakesComments

variable {r : Recognizer (List Char)} (h : TakesComments r)
include h

theorem atMark : AtMark r := by
  intro c s hc
  have : ('<' == c) = false := by simpa using hc.symm
  exact h.none _ (by simp [Cut.word?, Cut.wordBy?, this])

/-- What does not begin with `<!-` is passed over. -/
theorem passes {c : Char} {u : List Char} (hc : c ≠ '!' ∨ ∃ d w, u = d :: w ∧ d ≠ '-')
    (hu : '<' ∉ c :: u) : Passes r ('<' :: c :: u) := by
  refine passes_tag h.contextFree h.atMark (fun v => h.none _ ?_) hu
  rcases hc with hc | ⟨d, w, rfl, hd⟩
  · have : ('!' == c) = false := by simpa using hc.symm
    simp [Cut.word?, Cut.wordBy?, this]
  · have : ('-' == d) = false := by simpa using hd.symm
    simp [Cut.word?, Cut.wordBy?, this]

theorem passes_opening {n : List Char} (hn : isName n = true) {attrs : List Attr}
    (ha : ∀ a ∈ attrs, a.WellFormed) : Passes r (openingText n attrs) := by
  obtain ⟨c, w, rfl, hc⟩ := exists_cons_of_isName hn
  have h1 := not_mem_of_textChars fun x hx =>
    (NameChar.of_isNameChar (all_of_isName hn x hx)).isTextChar
  have h2 := not_mem_of_textChars (isTextChar_attrs ha)
  refine h.passes (c := c) (u := w ++ attrs.flatMap Attr.text ++ ['>']) (.inl ?_) ?_
  · rintro rfl
    exact absurd hc (by decide)
  · simpa [h2] using h1

theorem passes_closing {n : List Char} (hn : isName n = true) : Passes r (closingText n) := by
  have := not_mem_of_textChars fun x hx =>
    (NameChar.of_isNameChar (all_of_isName hn x hx)).isTextChar
  exact h.passes (c := '/') (u := n ++ ['>']) (.inl (by decide)) (by simp [this])

/-- The tags of a well-formed document, if no sealed element is mistaken for a comment. -/
theorem readBy {ε : Type} [Written ε] {d : List (Span ε)} (hd : WellFormed d)
    (he : ∀ e : ε, Written.WellFormed e → Passes r (Written.text e)) :
    ReadBy r commentsOnly d where
  contextFree := h.contextFree
  atMark := h.atMark
  texts s hs := not_mem_of_textChars (hd s hs).after
  tags s hs := by
    obtain ⟨t, a⟩ := s
    have ht := (hd _ hs).tag
    cases t with
    | declaration t =>
      obtain rfl := ht
      exact h.passes (c := '!') (u := "DOCTYPE html>".toList) (.inr ⟨'D', _, rfl, by decide⟩) (by decide)
    | comment t => exact h.takes t ht
    | opening n a => exact h.passes_opening ht.1 ht.2.2
    | closing n => exact h.passes_closing ht
    | sealed e => exact he e ht

/-- Taking away the comments of a document that begins with another tag. -/
theorem rewrites {ε : Type} [Written ε] {d : List (Span ε)} (hd : WellFormed d)
    (he : ∀ e : ε, Written.WellFormed e → Passes r (Written.text e))
    (hfirst : ∀ s t, d.head? = some s → s.tag ≠ .comment t) :
    Rewrites (replaceAll r) d (dropComments d) := by
  refine .of_readBy (h.readBy hd he) ?_
  have htext : ∀ d : List (Span ε), d.flatMap (fun s => (commentsOnly s.tag).getD s.tag.text ++ s.after) =
      ((parts d).filter fun p => !p.isComment).flatMap Part.chars := by
    intro d
    induction d with
    | nil => rfl
    | cons s d ih =>
      obtain ⟨t, a⟩ := s
      rw [List.flatMap_cons, ih, parts_cons]
      cases t <;> simp [Part.isComment, commentsOnly, Part.chars]
  rw [htext, ← lead_append_text_spans]
  have hlead : lead ((parts d).filter fun p => !p.isComment) = [] := by
    cases d with
    | nil => rfl
    | cons s d =>
      obtain ⟨t, a⟩ := s
      cases t with
      | comment t => exact absurd rfl (hfirst _ t rfl)
      | _ => rfl
  rw [hlead]
  rfl

end TakesComments

theorem passes_slot {ε : Type} [Written ε] {saved : List (List Char)} {r : Recognizer (List Char)}
    (h : TakesComments r) (s : Slot ε saved) : Passes r (Written.text s) := by
  have hmem : '<' ∉ Nat.toDigits 10 s.index := fun hm =>
    absurd (Nat.isDigit_of_mem_toDigits (by decide) (by decide) hm) (by decide)
  exact h.passes (c := '\x00') (u := Nat.toDigits 10 s.index ++ ['\x00', '>'])
    (.inl (by decide)) (by simp [hmem])

/-- The first pass of the reduction takes the comments away. -/
theorem rewrites_stripComments {ε : Type} [Sealed ε] {d : List (Span ε)} (hd : WellFormed d)
    (hn : NulFree d) (hfirst : ∀ s t, d.head? = some s → s.tag ≠ .comment t) :
    Rewrites Reduce.stripComments d (dropComments d) := by
  refine Rewrites.around hd hn fun saved d' hd' hmap => ?_
  refine ⟨dropComments d', hd'.dropComments, by rw [mapSealed_dropComments, hmap], ?_⟩
  refine takesComments_reduce.rewrites hd' (fun e _ => passes_slot takesComments_reduce e) ?_
  intro s t hs ht
  refine hfirst ⟨.comment t, s.after⟩ t ?_ rfl
  rw [← hmap, mapSealed, List.head?_map, hs]
  simp [ht, Tag.map]

end PagePress.Markup
