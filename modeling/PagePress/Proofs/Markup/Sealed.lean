import PagePress.Proofs.Markup.Opening

/-!
Recognition of whole elements. The content of a script or a stylesheet of a well-formed document
holds no `<`, so the first closing tag after its opening tag is its own (`elementRepeating?_gives`,
`element?_gives`).
-/

namespace PagePress.Markup

open Text Html

/-! ### Closing tags -/

theorem closeTag?_of_ne_mark (same : Char → Char → Bool) (n : List Char) {c : Char} (hc : c ≠ '<')
    (s : List Char) : closeTag? same n (c :: s) = none := by
  have : ('<' == c) = false := by simpa using hc.symm
  simp [closeTag?, Cut.word?, Cut.wordBy?, this]

theorem closeTag?_gives {same : Char → Char → Bool} {n s v : List Char}
    (hsame : ∀ c ∈ n, same c c = true) (hs : s = closingText n ++ v) :
    Cut.Gives (closeTag? same n s) (closingText n) v := by
  obtain ⟨k1, h1, t1, r1⟩ := Cut.word?_gives (s := s) (w := "</") (v := n ++ '>' :: v)
    (by simp [hs, closingText])
  obtain ⟨k2, h2, t2, r2⟩ := Cut.wordBy?_gives hsame r1
  have hb : isBlank '>' = false := by decide
  obtain ⟨k3, h3, t3, r3⟩ := Cut.char?_gives (s := (Cut.span isBlank k2.rest).rest)
    (p := (· == '>')) (c := '>') (v := v) (by simp [r2, hb]) (by decide)
  have e : closeTag? same n s =
      some (((k1.andThen k2).andThen (Cut.span isBlank k2.rest)).andThen k3) := by
    simp only [closeTag?, h1, h2, h3, Option.bind_eq_bind, Option.bind_some]
    rfl
  refine ⟨_, e, ?_, r3⟩
  show k1.text ++ k2.text ++ k2.rest.takeWhile isBlank ++ k3.text = _
  simp [t1, t2, t3, r2, hb, closingText]

/-! ### Elements -/

variable {s : List Char}

/-- An element whose three parts are known. -/
structure Element.Parts (el : Html.Element s) (opening body closing v : List Char) : Prop where
  opening : el.opening.text = opening
  body : el.body.text = body
  closing : el.closing.text = closing
  rest : el.closing.rest = v

theorem Element.Parts.cut_text {el : Html.Element s} {a b c v : List Char}
    (h : Element.Parts el a b c v) : el.cut.text = a ++ b ++ c := by
  show el.opening.text ++ el.body.text ++ el.closing.text = _
  rw [h.opening, h.body, h.closing]

/-- The first closing tag completes an element whose content holds no `<`. -/
theorem elementAfter?_gives {o : Cut s} {f : (t : List Char) → Option (Cut t)}
    {content n v : List Char} (hs : o.rest = content ++ (closingText n ++ v))
    (hc : '<' ∉ content) (hne : ∀ c t, c ≠ '<' → f (c :: t) = none)
    (hclose : ∀ t, t = closingText n ++ v → Cut.Gives (f t) (closingText n) v) :
    ∃ el, elementAfter? o f = some el ∧
      Element.Parts el o.text content (closingText n) v := by
  have hstop : (f (closingText n ++ v)).isSome = true := by
    obtain ⟨k, hk, -⟩ := hclose _ rfl
    rw [hk]
    rfl
  have hbefore : ∀ x c y, content = x ++ c :: y →
      (f (c :: y ++ (closingText n ++ v))).isSome = false := by
    intro x c y e
    have hcne : c ≠ '<' := by
      rintro rfl
      exact hc (by simp [e])
    rw [List.cons_append, hne c _ hcne]
    rfl
  obtain ⟨k1, h1, t1, r1⟩ := Cut.before?_gives (p := fun t => (f t).isSome) hs hbefore hstop
  obtain ⟨k2, h2, t2, r2⟩ := hclose _ r1
  have e : elementAfter? o f = some ⟨o, k1, k2⟩ := by
    simp only [elementAfter?, h1, h2, Option.bind_eq_bind, Option.bind_some]
    rfl
  exact ⟨_, e, rfl, t1, t2, r2⟩

theorem sameCaseless_refl (c : Char) : sameCaseless c c = true := by simp [sameCaseless]

/-- The text of an element, split at the end of its opening tag. -/
theorem Element.text_append (e : Element) (v : List Char) :
    Written.text e ++ v = openingText e.name e.attrs ++ (e.content ++ (closingText e.name ++ v)) := by
  simp [Written.text]

theorem Element.text_ne_nil (e : Element) : Written.text e ≠ [] := by
  simp [Written.text, openingText]

theorem Element.WellFormed.isName {e : Element} (he : e.WellFormed) : isName e.name = true := by
  have h := he.name
  simp only [sealedNames, List.mem_cons, List.not_mem_nil, or_false] at h
  rcases h with h | h <;> rw [h] <;> decide

section

variable {e : Element} (he : e.WellFormed) {m : String} (hm : m.toList = e.name) {v : List Char}
include he hm

/-- An element whose closing tag repeats the name of its opening tag is taken as a whole. -/
theorem elementRepeating?_gives (hs : s = Written.text e ++ v) :
    ∃ el, elementRepeating? m s = some el ∧
      Element.Parts el (openingText e.name e.attrs) e.content (closingText e.name) v := by
  rw [Element.text_append] at hs
  obtain ⟨k, hk, ht, hr⟩ := openTag?_gives (hm ▸ he.isName) hm he.attrs hs
  have hname : (k.text.drop 1).take m.length = e.name := by
    rw [ht, ← String.length_toList, hm]
    simp [openingText]
  obtain ⟨el, h1, h2⟩ := elementAfter?_gives (f := closeTag? sameCaseless e.name) hr he.content
    (fun c t hc => closeTag?_of_ne_mark _ _ hc t)
    fun t htt => closeTag?_gives (fun c _ => sameCaseless_refl c) htt
  refine ⟨el, ?_, ht ▸ h2⟩
  simp only [elementRepeating?, hk, Option.bind_eq_bind, Option.bind_some, hname, h1]

/-- An element whose two tags have the looked-for name is taken as a whole. -/
theorem element?_gives (hs : s = Written.text e ++ v) :
    ∃ el, element? m s = some el ∧
      Element.Parts el (openingText e.name e.attrs) e.content (closingText e.name) v := by
  rw [Element.text_append] at hs
  obtain ⟨k, hk, ht, hr⟩ := openTag?_gives (hm ▸ he.isName) hm he.attrs hs
  have hclose : ∀ t, t = closingText e.name ++ v →
      Cut.Gives (closeTag? sameLetter m.toList t) (closingText e.name) v := by
    intro t htt
    rw [hm]
    refine closeTag?_gives (fun c hc => ?_) htt
    rw [sameLetter_of_isNameChar (all_of_isName he.isName c hc)]
    exact beq_self_eq_true c
  obtain ⟨el, h1, h2⟩ := elementAfter?_gives (f := closeTag? sameLetter m.toList) hr he.content
    (fun c t hc => closeTag?_of_ne_mark _ _ hc t) hclose
  refine ⟨el, ?_, ht ▸ h2⟩
  simp only [element?, hk, Option.bind_eq_bind, Option.bind_some, h1]

end

end PagePress.Markup
