import Mathlib.Data.List.Chain
import PagePress.Inspect
import PagePress.Proofs.Markup.Reads
import PagePress.Proofs.Markup.Tree

/-!
Attributes as the inspection reads them off the text of a tag. It looks for a name and may find it
inside the value of another attribute; where no value is empty, whatever it finds is something, so
an input with a placeholder is found to have one.
-/

namespace PagePress.Markup

open Text Html

/-! ### Searching -/

theorem occurs_of_suffix {p : Option Char → List Char → Bool} {s t : List Char}
    (h : ∀ b, p b s = true) (hs : s <:+ t) (b : Option Char) : occurs p b t = true := by
  obtain ⟨u, rfl⟩ := hs
  induction u generalizing b with
  | nil =>
    cases s with
    | nil => exact h b
    | cons c s => simp [occurs, h b]
  | cons c u ih => simp [occurs, ih]

theorem occurs_cons {p : Option Char → List Char → Bool} {c : Char} {s : List Char}
    (h : p (some c) s = true) (b : Option Char) : occurs p b (c :: s) = true := by
  have hs : occurs p (some c) s = true := by
    cases s with
    | nil => exact h
    | cons d s => simp [occurs, h]
  simp [occurs, hs]

theorem exists_of_firstMatch? {α : Type} {f : Option Char → List Char → Option α} {b : Option Char}
    {s : List Char} {x : α} (h : firstMatch? f b s = some x) : ∃ b' u, u <:+ s ∧ f b' u = some x := by
  induction s generalizing b with
  | nil => exact ⟨b, [], List.suffix_rfl, h⟩
  | cons c s ih =>
    unfold firstMatch? at h
    cases hf : f b (c :: s) with
    | some y =>
      rw [hf] at h
      exact ⟨b, c :: s, List.suffix_rfl, hf.trans h⟩
    | none =>
      rw [hf] at h
      obtain ⟨b', u, hu, hx⟩ := ih h
      exact ⟨b', u, hu.trans (List.suffix_cons c s), hx⟩

theorem firstMatch?_isSome {α : Type} {f : Option Char → List Char → Option α} {c : Char}
    {s : List Char} (h : (f (some c) s).isSome = true) (u : List Char) (b : Option Char) :
    (firstMatch? f b (u ++ c :: s)).isSome = true := by
  have hplace : (firstMatch? f (some c) s).isSome = true := by
    cases s with
    | nil => exact h
    | cons d s =>
      obtain ⟨x, hx⟩ := Option.isSome_iff_exists.1 h
      simp [firstMatch?, hx]
  induction u generalizing b with
  | nil =>
    rw [List.nil_append, firstMatch?]
    cases f b (c :: s) with
    | none => exact hplace
    | some x => rfl
  | cons d u ih =>
    rw [List.cons_append, firstMatch?]
    cases f b (d :: (u ++ c :: s)) with
    | none => exact ih (some d)
    | some x => rfl

/-! ### Tags -/

/-- Where an attribute stands in a tag. -/
theorem exists_attr {attrs : List Attr} {a : Attr} (h : a ∈ attrs) (n : List Char) :
    ∃ u w, openingText n attrs = u ++ (a.text ++ w) ∧ ∃ c x, w = c :: x ∧ isNameEnd c = true := by
  obtain ⟨l, r, rfl⟩ := List.append_of_mem h
  obtain ⟨c, x, hx, hc⟩ := exists_nameEnd r []
  refine ⟨'<' :: n ++ l.flatMap Attr.text, r.flatMap Attr.text ++ ['>'], ?_, c, x, hx, hc⟩
  simp [openingText]

/-- A tag mentions an attribute that it has. -/
theorem hasAttribute_of_mem {m : String} (hm : ∀ c ∈ m.toList, sameLetter c c = true)
    {attrs : List Attr} {a : Attr} (h : a ∈ attrs) (hn : a.name = m.toList) (n : List Char) :
    Inspect.hasAttribute m (openingText n attrs) = true := by
  obtain ⟨u, w, hw, c, x, hx, hc⟩ := exists_attr h n
  obtain ⟨d, y, hy, hd⟩ : ∃ d y, a.text ++ w = ' ' :: (m.toList ++ d :: y) ∧
      (Inspect.endsName d || d == '=') = true := by
    rw [Attr.text, hn]
    cases a.value with
    | none =>
      refine ⟨c, x, by simp [hx], ?_⟩
      rcases (by simpa [isNameEnd] using hc : c = ' ' ∨ c = '>') with rfl | rfl <;> rfl
    | some v => exact ⟨'=', '"' :: v ++ ['"'] ++ w, by simp, rfl⟩
  refine occurs_of_suffix (s := ' ' :: (m.toList ++ d :: y)) (fun b => ?_) ⟨u, by rw [hw, hy]⟩ none
  obtain ⟨k, hk, -, hr⟩ := Cut.wordBy?_gives (s := m.toList ++ d :: y) (v := d :: y) hm rfl
  have hspace : Cut.char? isBlank (' ' :: (m.toList ++ d :: y)) = some ⟨[' '], _, rfl⟩ :=
    Cut.char?_pos (by decide) _
  have hword : Cut.wordAnyCase? m (m.toList ++ d :: y) = some k := hk
  simp only [hspace, List.append_eq, hword, hr]
  exact hd

/-! ### Values -/

/-- No two quotation marks stand side by side. -/
def QuotesApart (s : List Char) : Prop := s.IsChain fun a b => a = '"' → b ≠ '"'

theorem quotesApart_of_not_mem {s : List Char} (h : '"' ∉ s) : QuotesApart s := by
  induction s with
  | nil => exact .nil
  | cons c s ih =>
    rw [List.mem_cons, not_or] at h
    cases s with
    | nil => exact .singleton c
    | cons d s => exact .cons_cons (fun hc => absurd hc.symm h.1) (ih h.2)

theorem QuotesApart.append {s t : List Char} (hs : QuotesApart s) (ht : QuotesApart t)
    (h : s.getLast? ≠ some '"' ∨ t.head? ≠ some '"') : QuotesApart (s ++ t) := by
  refine List.isChain_append.2 ⟨hs, ht, fun a ha b hb hq => ?_⟩
  rintro rfl
  subst hq
  rcases h with h | h
  · exact h ha
  · exact h hb

/-- A quoted value that holds something. -/
theorem quotesApart_value {v : List Char} (hv : '"' ∉ v) (hne : v ≠ []) :
    QuotesApart ('"' :: v ++ ['"']) := by
  have hlast : v.getLast? ≠ some '"' := fun h => hv (List.mem_of_getLast? h)
  have hhead : v.head? ≠ some '"' := fun h => hv (List.mem_of_head? h)
  refine QuotesApart.append ?_ (.singleton _) (.inl ?_)
  · exact QuotesApart.append (s := ['"']) (.singleton _) (quotesApart_of_not_mem hv) (.inr hhead)
  · rwa [List.getLast?_cons_of_ne_nil hne]

theorem quotesApart_attrs {attrs : List Attr} (ha : ∀ a ∈ attrs, a.WellFormed)
    (hv : ∀ a ∈ attrs, ∀ v, a.value = some v → v ≠ []) :
    QuotesApart (attrs.flatMap Attr.text ++ ['>']) := by
  induction attrs with
  | nil => exact .singleton _
  | cons a attrs ih =>
    have ih := ih (fun x hx => ha x (by simp [hx])) fun x hx => hv x (by simp [hx])
    have hname : '"' ∉ ' ' :: a.name := by
      intro hm
      rcases List.mem_cons.1 hm with hm | hm
      · exact absurd hm (by decide)
      · rcases mem_name_of_isAttrName (ha a (by simp)).name _ hm with h | h <;> exact absurd h (by decide)
    have htext : QuotesApart a.text := by
      rw [Attr.text]
      cases hval : a.value with
      | none => simpa using quotesApart_of_not_mem hname
      | some v =>
        have hquote : '"' ∉ v := fun hm => absurd ((ha a (by simp)).value v hval _ hm) (by decide)
        have h1 : QuotesApart (' ' :: a.name ++ ['=']) :=
          quotesApart_of_not_mem (by simpa using hname)
        have := h1.append (quotesApart_value hquote (hv a (by simp) v hval))
          (.inl (by rw [List.getLast?_append]; simp))
        simpa using this
    rw [List.flatMap_cons, List.append_assoc]
    refine htext.append ih (.inr ?_)
    cases attrs <;> simp [Attr.text]

/-- A value that is read off is empty only between two marks side by side. -/
theorem attributeValue?_empty {s : List Char} (h : Inspect.attributeValue? s = some []) :
    (∃ w, s = '"' :: '"' :: w) ∨ ∃ w, s = '\'' :: w := by
  cases s with
  | nil => simp [Inspect.attributeValue?, Cut.spanSome?] at h
  | cons c s =>
    by_cases h1 : c = '"'
    · subst h1
      left
      by_cases hm : '"' ∈ s
      · cases s with
        | nil => cases hm
        | cons d s =>
          by_cases hd : d = '"'
          · exact ⟨s, by rw [hd]⟩
          · have : (d == '"') = false := by simpa using hd
            simp [Inspect.attributeValue?, hm, hd] at h
      · simp [Inspect.attributeValue?, hm, Cut.spanSome?, Cut.char?] at h
    · by_cases h2 : c = '\''
      · exact .inr ⟨s, by rw [h2]⟩
      · simp [Inspect.attributeValue?, h1, h2, Cut.spanSome?, Cut.char?] at h

/-- The search for the value of an attribute, at one place. -/
theorem exists_of_attribute? {name : String} {tag : List Char} {v : List Char}
    (h : Inspect.attribute? name tag = some v) :
    ∃ u, u <:+ tag ∧ Inspect.attributeValue? u = some v := by
  obtain ⟨b, s, hs, hv⟩ := exists_of_firstMatch? h
  split at hv
  · cases hv
  · simp only [Option.bind_eq_bind, Option.bind_eq_some_iff] at hv
    obtain ⟨word, -, equals, -, hv⟩ := hv
    refine ⟨_, ?_, hv⟩
    exact (List.dropWhile_suffix _).trans (equals.rest_suffix.trans ((List.dropWhile_suffix _).trans
      (word.rest_suffix.trans hs)))

/-- An attribute with a value is found somewhere in its tag. -/
theorem attribute?_isSome {m : String} (hm : ∀ c ∈ m.toList, sameLetter c c = true)
    {attrs : List Attr} {a : Attr} (h : a ∈ attrs) (hn : a.name = m.toList)
    (hv : a.value.isSome = true) (n : List Char) :
    (Inspect.attribute? m (openingText n attrs)).isSome = true := by
  obtain ⟨u, w, hw, -⟩ := exists_attr h n
  obtain ⟨v, hval⟩ := Option.isSome_iff_exists.1 hv
  have htext : a.text ++ w = ' ' :: (m.toList ++ '=' :: '"' :: (v ++ '"' :: w)) := by
    simp [Attr.text, hval, hn]
  rw [hw, htext]
  refine firstMatch?_isSome ?_ u none
  obtain ⟨k, hk, -, hr⟩ := Cut.wordBy?_gives (s := m.toList ++ '=' :: '"' :: (v ++ '"' :: w))
    (v := '=' :: '"' :: (v ++ '"' :: w)) hm rfl
  have hword : Cut.wordAnyCase? m (m.toList ++ '=' :: '"' :: (v ++ '"' :: w)) = some k := hk
  have hbefore : ((some ' ').any fun c => isWord c || c == '-') = false := by decide
  have hdrop : k.rest.dropWhile isBlank = '=' :: '"' :: (v ++ '"' :: w) := by
    rw [hr]
    rfl
  obtain ⟨k2, h2, -, r2⟩ := Cut.char?_gives (p := (· == '=')) hdrop (by decide)
  have hquote : k2.rest.dropWhile isBlank = '"' :: (v ++ '"' :: w) := by
    rw [r2]
    rfl
  simp only [hbefore, Bool.false_eq_true, if_false, hword, Option.bind_eq_bind, Option.bind_some,
    h2, hquote]
  simp [Inspect.attributeValue?]

theorem quotesApart_openingText {n : List Char} (hn : '"' ∉ n) {attrs : List Attr}
    (ha : ∀ a ∈ attrs, a.WellFormed) (hv : ∀ a ∈ attrs, ∀ v, a.value = some v → v ≠ []) :
    QuotesApart (openingText n attrs) := by
  have hmark : '"' ∉ '<' :: n := by simp [hn]
  have hlast : ('<' :: n).getLast? ≠ some '"' := fun h => hmark (List.mem_of_getLast? h)
  simpa [openingText] using (quotesApart_of_not_mem hmark).append (quotesApart_attrs ha hv) (.inl hlast)

theorem apostrophe_not_mem_openingText {n : List Char} (hn : isName n = true) {attrs : List Attr}
    (ha : ∀ a ∈ attrs, a.WellFormed) (hv : ∀ a ∈ attrs, ∀ v, a.value = some v → '\'' ∉ v) :
    '\'' ∉ openingText n attrs := by
  have hname : '\'' ∉ n := fun hm => absurd (all_of_isName hn _ hm) (by decide)
  have hattrs : '\'' ∉ attrs.flatMap Attr.text := by
    intro hm
    obtain ⟨a, hmem, hm⟩ := List.mem_flatMap.1 hm
    rw [Attr.text, List.cons_append, List.mem_cons, List.mem_append] at hm
    rcases hm with hm | hm | hm
    · exact absurd hm (by decide)
    · rcases mem_name_of_isAttrName (ha a hmem).name _ hm with h | h <;> exact absurd h (by decide)
    · cases hval : a.value with
      | none => simp [hval] at hm
      | some v => simp [hval, hv a hmem v hval] at hm
  simp [openingText, hname, hattrs]

/-- An input whose values hold something has its placeholder found. -/
theorem filled_placeholder {attrs : List Attr} (ha : ∀ a ∈ attrs, a.WellFormed)
    (hl : Labelled attrs) : Inspect.filled "placeholder" (openingText "input".toList attrs) = true := by
  obtain ⟨a, hmem, hn, hv⟩ := hl.placeholder
  have hsome := attribute?_isSome (m := "placeholder") (by decide) hmem hn hv "input".toList
  obtain ⟨v, hv⟩ := Option.isSome_iff_exists.1 hsome
  have hvalues : ∀ a ∈ attrs, ∀ v, a.value = some v → v ≠ [] := by
    intro a ha v hv
    obtain ⟨-, c, hc, -⟩ := hl.values a ha v hv
    exact List.ne_nil_of_mem hc
  have hapart := quotesApart_openingText (n := "input".toList) (by decide) ha hvalues
  have hquote := apostrophe_not_mem_openingText (n := "input".toList) (by decide) ha
    fun a ha v hv => (hl.values a ha v hv).1
  have hne : v ≠ [] := by
    rintro rfl
    obtain ⟨u, hu, hempty⟩ := exists_of_attribute? hv
    rcases attributeValue?_empty hempty with ⟨w, rfl⟩ | ⟨w, rfl⟩
    · have := hapart.suffix hu
      rw [List.isChain_cons_cons] at this
      exact this.1 rfl rfl
    · exact hquote (hu.mem (by simp))
  rw [Inspect.filled, hv]
  simp [hne]

end PagePress.Markup
