import Mathlib.Data.List.Infix
import PagePress.Proofs.Reduce.Images
import PagePress.Proofs.Shield.Outline

/-!
Tags between shielded elements. The passes that drop empty attributes and add hints to images edit
each tag of a text by itself, so that both keep the elements of a text with an outline. Only a word
directly behind an empty value could turn a tag into one that opens an element (`Separated`).
-/

namespace PagePress.Html.Shield

open Text Reduce

variable {P : List Char → Prop} {p : List (Segment Unit)}

/-! ### Empty attributes -/

/-- No word follows the quotes of an empty value directly. -/
def Separated (t : List Char) : Prop :=
  ∀ w k, '=' :: w <:+ t → emptyValue? (w.dropWhile isBlank) = some k → endsWord k.rest = true

instance (t : List Char) : Decidable (Separated t) :=
  decidable_of_iff (∀ u ∈ t.tails, u.head? = some '=' →
    ∀ k ∈ emptyValue? (u.tail.dropWhile isBlank), endsWord k.rest = true) (by
      constructor
      · intro h w k hw hk
        exact h ('=' :: w) ((List.mem_tails ..).2 hw) rfl k hk
      · intro h u hu hhead k hk
        obtain ⟨w, rfl⟩ := List.head?_eq_some_iff.1 hhead
        exact h w k ((List.mem_tails ..).1 hu) hk)

theorem Separated.of_suffix {s t : List Char} (h : Separated t) (hs : s <:+ t) : Separated s :=
  fun w k hw hk => h w k (hw.trans hs) hk

/-- A word that has ended before thinning has ended behind it. -/
theorem endsWord_thinned {s t : List Char} (h : ThinnedText false s t) (hs : endsWord s = true) :
    endsWord t = true := by
  cases h with
  | keep _ _ => exact hs
  | space _ hd _ => simp [endsWord, isWord_of_isBlank hd]
  | trail _ => rfl

/-- Thinning a tag brings no word behind an empty value. -/
theorem Separated.of_thinned {s t : List Char} (h : ThinnedText false s t) (hs : Separated s) :
    Separated t := by
  rintro w k ⟨y, rfl⟩ hk
  obtain ⟨c, hc, htext⟩ := Markup.emptyValue?_some hk
  have hquote : isBlank c = false ∧ (c == '>') = false := by
    rcases hc with rfl | rfl <;> decide
  have hvalue : w.dropWhile isBlank = c :: (c :: k.rest) := by
    have := k.append_eq
    rw [htext] at this
    exact this.symm
  have hcut : w = w.takeWhile isBlank ++ c :: (c :: k.rest) :=
    List.takeWhile_append_dropWhile.symm.trans (congrArg _ hvalue)
  have hblanks : ∀ d ∈ w.takeWhile isBlank, isBlank d = true := fun d hd => List.mem_takeWhile_imp hd
  obtain ⟨s₁, s₂, rfl, hthin⟩ := h.split (by decide)
  rw [hcut] at hthin
  obtain ⟨u, s₃, rfl, hu, hthin⟩ := hthin.blanks hblanks hquote.1
  rw [hquote.2] at hthin
  obtain ⟨s₄, rfl, hrest⟩ := hthin.solid_prefix (u := [c]) (by simpa using hquote)
  obtain ⟨k', hk', -, heq⟩ := Markup.emptyValue?_gives hc (s := (u ++ c :: ([c] ++ s₄)).dropWhile isBlank)
    (v := s₄) (by rw [List.dropWhile_append_of_pos hu, List.dropWhile_cons_of_neg (by simp [hquote.1])]; rfl)
  refine endsWord_thinned hrest ?_
  rw [← heq]
  exact hs _ k' (List.suffix_append s₁ _) hk'

theorem emptyValue?_extend_mark (s t : List Char) :
    emptyValue? (s ++ '>' :: t) = (emptyValue? s).map (Cut.extend · ('>' :: t)) := by
  have hword : ∀ w ∈ ["\"\"", "''"],
      Cut.word? w (s ++ '>' :: t) = (Cut.word? w s).map (Cut.extend · ('>' :: t)) := fun w hw =>
    Cut.wordBy?_extend ((by decide : ∀ w ∈ ["\"\"", "''"], ∀ a ∈ w.toList, (a == '>') = false) w hw) s t
  rw [emptyValue?, emptyValue?, hword _ (by simp), hword _ (by simp)]
  cases Cut.word? "\"\"" s <;> rfl

/-- What is recognised in a tag ends in the tag. -/
theorem emptyAttribute?_extend_mark (s t : List Char) :
    emptyAttribute? none (s ++ '>' :: t) =
      (emptyAttribute? none s).map fun x => (x.1, x.2.extend ('>' :: t)) := by
  have hblank : isBlank '>' = false := by decide
  have hspan : ∀ u, Cut.span isBlank (u ++ '>' :: t) = (Cut.span isBlank u).extend ('>' :: t) :=
    fun u => Cut.span_extend hblank u t
  refine Cut.bind_extend (Cut.spanSome?_extend hblank s t) fun k1 => ?_
  refine Cut.bind_extend (Cut.spanSome?_extend (by decide) k1.rest t) fun k2 => ?_
  rw [show Cut.span isBlank (k2.extend ('>' :: t)).rest =
    (Cut.span isBlank k2.rest).extend ('>' :: t) from hspan k2.rest]
  refine Cut.bind_extend (Cut.char?_extend (by decide) (Cut.span isBlank k2.rest).rest t) fun k3 => ?_
  rw [show Cut.span isBlank (k3.extend ('>' :: t)).rest =
    (Cut.span isBlank k3.rest).extend ('>' :: t) from hspan k3.rest]
  exact Cut.bind_extend (emptyValue?_extend_mark _ t) fun k4 => rfl

theorem cleanse_nil : Markup.cleanse [] = [] := replaceAll_nil _

/-- Its end does not belong to the attributes of a tag. -/
theorem cleanse_mark (s : List Char) : Markup.cleanse (s ++ ['>']) = Markup.cleanse s ++ ['>'] := by
  rw [Markup.cleanse, replaceAll_append_of_extend Markup.contextFree_emptyAttribute fun u _ =>
    emptyAttribute?_extend_mark u [], replaceAll_of_none Markup.contextFree_emptyAttribute
    (Markup.emptyAttribute?_of_not_blank (by decide) []), replaceAll_nil]
  rfl

/-- An empty attribute begins with white space, is left out or kept as a whole, and where values are
separated it is followed by no word. -/
theorem emptyAttribute?_some {b : Option Char} {t a : List Char} {k : Cut t}
    (h : emptyAttribute? b t = some (a, k)) :
    (∃ c u, k.text = c :: u ∧ isBlank c = true) ∧ (a = [] ∨ a = k.text) ∧
      (Separated t → endsWord k.rest = true) := by
  simp only [emptyAttribute?, Option.bind_eq_bind, Option.bind_eq_some_iff, Option.pure_def,
    Option.some.injEq, Prod.mk.injEq] at h
  obtain ⟨space, hspace, name, hname, equals, hequals, value, hvalue, rfl, rfl⟩ := h
  refine ⟨?_, ?_, fun ht => ?_⟩
  · obtain ⟨c, u, htext, hall⟩ := Cut.spanSome?_eq_some hspace
    refine ⟨c, u ++ (name.text ++ (name.rest.takeWhile isBlank ++ (equals.text ++
      (equals.rest.takeWhile isBlank ++ value.text)))), ?_, hall c (by simp)⟩
    show ((((space.text ++ name.text) ++ name.rest.takeWhile isBlank) ++ equals.text) ++
      equals.rest.takeWhile isBlank) ++ value.text = _
    rw [htext]
    simp
  · split
    · exact .inr rfl
    · exact .inl rfl
  · obtain ⟨c, hc, hcut⟩ := Cut.eq_cons_of_char? hequals
    obtain rfl : c = '=' := by simpa using hc
    refine ht equals.rest value (hcut ▸ ?_) hvalue
    exact (Cut.span isBlank name.rest).rest_suffix.trans (name.rest_suffix.trans space.rest_suffix)

/-- A character of a tag is kept, or an attribute begins there and goes or is kept. -/
theorem cleanse_cons (c : Char) (s : List Char) :
    Markup.cleanse (c :: s) = c :: Markup.cleanse s ∨
      isBlank c = true ∧ ∃ v r, c :: s = v ++ r ∧ v ≠ [] ∧ (Separated (c :: s) → endsWord r = true) ∧
        (Markup.cleanse (c :: s) = Markup.cleanse r ∨ ∃ t, Markup.cleanse (c :: s) = c :: t) := by
  cases hr : emptyAttribute? none (c :: s) with
  | none => exact .inl (replaceAll_of_none Markup.contextFree_emptyAttribute hr)
  | some x =>
    obtain ⟨a, k⟩ := x
    obtain ⟨⟨d, u, htext, hd⟩, ha, hend⟩ := emptyAttribute?_some hr
    have hcut : c :: s = k.text ++ k.rest := k.append_eq.symm
    obtain rfl : c = d := by
      rw [htext] at hcut
      exact (List.cons.inj hcut).1
    have hne : k.text ≠ [] := by simp [htext]
    have hreplace : Markup.cleanse (c :: s) = a ++ Markup.cleanse k.rest :=
      replaceAll_of_gives Markup.contextFree_emptyAttribute hcut hne hr rfl
    refine .inr ⟨hd, k.text, k.rest, hcut, hne, hend, ?_⟩
    rcases ha with rfl | rfl
    · exact .inl hreplace
    · exact .inr ⟨u ++ Markup.cleanse k.rest, by rw [hreplace, htext]; rfl⟩

/-- A word that ends before the empty attributes go has ended when they are gone. -/
theorem endsWord_cleanse {s : List Char} (hs : Separated s) (h : endsWord s = true) :
    endsWord (Markup.cleanse s) = true := by
  induction hn : s.length using Nat.strongRecOn generalizing s with
  | _ n ih =>
    cases s with
    | nil => rw [cleanse_nil, h]
    | cons c s =>
      rcases cleanse_cons c s with hkeep | ⟨hc, v, r, hcut, hv, hend, hgo | ⟨t, hkeep⟩⟩
      · rw [hkeep]
        exact h
      · rw [hgo]
        have hsuffix : r <:+ c :: s := ⟨v, hcut.symm⟩
        refine ih r.length ?_ (hs.of_suffix hsuffix) (hend hs) rfl
        have := congrArg List.length hcut
        have := List.length_pos_iff.2 hv
        simp only [List.length_append] at *
        omega
      · rw [hkeep]
        simp [endsWord, isWord_of_isBlank hc]

/-- A name that stands at the front when the empty attributes are gone stood there before. -/
theorem exists_of_cleanse_eq {s w r : List Char} (hs : Separated s) (hw : ∀ c ∈ w, NameLetter c)
    (hr : endsWord r = true) (h : Markup.cleanse s = w ++ r) : ∃ r', s = w ++ r' ∧ endsWord r' = true := by
  induction w generalizing s with
  | nil =>
    refine ⟨s, rfl, ?_⟩
    cases s with
    | nil => rfl
    | cons c s =>
      rcases cleanse_cons c s with hkeep | ⟨hc, -⟩
      · rw [hkeep] at h
        obtain rfl : c :: Markup.cleanse s = r := h
        exact hr
      · simp [endsWord, isWord_of_isBlank hc]
  | cons a w ih =>
    have ha := hw a (by simp)
    cases s with
    | nil =>
      rw [cleanse_nil] at h
      cases h
    | cons c s =>
      rcases cleanse_cons c s with hkeep | ⟨hc, v, x, hcut, -, hend, hgo | ⟨t, hkeep⟩⟩
      · rw [hkeep, List.cons_append] at h
        obtain ⟨rfl, hrest⟩ := List.cons.inj h
        obtain ⟨r', rfl, hr'⟩ := ih (hs.of_suffix (List.suffix_cons _ _))
          (fun d hd => hw d (by simp [hd])) hrest
        exact ⟨r', rfl, hr'⟩
      · -- The name would begin behind an attribute that went, where a word has just ended.
        have hfront := endsWord_cleanse (hs.of_suffix ⟨v, hcut.symm⟩) (hend hs)
        rw [← hgo, h] at hfront
        simp [endsWord, ha.isWord] at hfront
      · rw [hkeep] at h
        obtain ⟨rfl, -⟩ := List.cons.inj h
        rw [ha.isBlank] at hc
        cases hc

/-- A tag that opens no shielded element does not when its empty attributes are gone. -/
theorem unshielded_cleanse {s : List Char} (hs : Separated (s ++ ['>'])) (h : Unshielded s) :
    Unshielded (Markup.cleanse s) := by
  intro name hname
  cases hstart : tagStart? name (tagText (Markup.cleanse s)) with
  | none => rfl
  | some k =>
    obtain ⟨w, htext, hw, hend⟩ := tagStart?_some hstart
    have hcut := k.append_eq
    rw [htext] at hcut
    have hfront : Markup.cleanse (s ++ ['>']) = w ++ k.rest := by
      rw [cleanse_mark]
      exact (List.cons.inj hcut).2.symm
    obtain ⟨r, hr, hrend⟩ :=
      exists_of_cleanse_eq hs (nameLetter_of_forall₂ (isTagName_of_mem hname) hw) hend hfront
    obtain ⟨k', hk', -⟩ := tagStart?_gives hw hrend (s := tagText s) (by rw [tagText, hr])
    rw [h name hname] at hk'
    cases hk'

/-- What stands between the marks of a tag without its empty attributes. Only what begins with a
letter is a start tag. -/
def emptied (s : List Char) : List Char :=
  if s.head?.any Char.isAlpha then Markup.cleanse s else s

theorem startTag?_gives {c : Char} (hc : c.isAlpha = true) {s : List Char} (h₁ : '<' ∉ s) (h₂ : '>' ∉ s)
    (v : List Char) : ∃ k : Cut (tagText (c :: s) ++ v),
      startTag? none (tagText (c :: s) ++ v) = some (replaceAll emptyAttribute? k.text, k) ∧
        k.text = tagText (c :: s) := by
  have hall : ∀ d ∈ s, (d != '<' && d != '>') = true := fun d hd => by
    rw [Bool.and_eq_true, bne_iff_ne, bne_iff_ne]
    exact ⟨fun h => h₁ (h ▸ hd), fun h => h₂ (h ▸ hd)⟩
  obtain ⟨k₁, e₁, t₁, r₁⟩ := Cut.char?_gives (s := tagText (c :: s) ++ v) (p := (· == '<')) (c := '<')
    (v := c :: (s ++ '>' :: v)) (by simp [tagText]) (by decide)
  obtain ⟨k₂, e₂, t₂, r₂⟩ := Cut.char?_gives (p := Char.isAlpha) r₁ hc
  obtain ⟨htake, hdrop⟩ := Cut.span_gives_cons r₂ hall (by decide)
  obtain ⟨k₃, e₃, t₃, -⟩ := Cut.char?_gives (p := (· == '>')) hdrop (by decide)
  refine ⟨((k₁.andThen k₂).andThen (Cut.span (fun d => d != '<' && d != '>') k₂.rest)).andThen k₃, ?_, ?_⟩
  · simp only [startTag?, e₁, e₂, e₃, Option.bind_eq_bind, Option.bind_some, Option.pure_def]
  · show k₁.text ++ k₂.text ++ (Cut.span (fun d => d != '<' && d != '>') k₂.rest).text ++ k₃.text = _
    rw [t₁, t₂, t₃, htake]
    rfl

theorem passes_startTag_placeholder (i : Nat) : Passes startTag? (placeholder i) :=
  Markup.passes_startTag (by decide) (mark_not_mem_tail i)

theorem editsTags_startTag : EditsTags startTag? P emptied where
  contextFree := Markup.contextFree_startTag
  atMark := Markup.atMark_startTag
  placeholder := passes_startTag_placeholder
  tag s h₁ h₂ _ v := by
    cases s with
    | nil => exact (Markup.passes_startTag (c := '>') (u := []) (by decide) (by decide)).replaceAll v
    | cons c s =>
      by_cases hc : c.isAlpha = true
      · rw [List.mem_cons, not_or] at h₁ h₂
        obtain ⟨k, hk, htext⟩ := startTag?_gives hc h₁.2 h₂.2 v
        rw [replaceAll_of_gives Markup.contextFree_startTag rfl (tagText_ne_nil _) hk htext, htext, emptied,
          if_pos (by simpa using hc), tagText, replaceAll_of_none Markup.contextFree_emptyAttribute
          (Markup.emptyAttribute?_of_not_blank (by decide) _), ← Markup.cleanse, cleanse_mark]
        rfl
      · rw [emptied, if_neg (by simpa using hc)]
        exact (Markup.passes_startTag (c := c) (u := s ++ ['>']) (by simpa using hc)
          (by simpa using h₁)).replaceAll v

/-- Dropping empty attributes keeps the elements of a text whose values are separated. -/
theorem exists_dropEmptyAttributes (hp : Outline (fun s => Separated (s ++ ['>'])) p) :
    ∃ p', dropEmptyAttributes (source p) = source p' ∧ Outline (fun _ => True) p' ∧ saved p' = saved p := by
  refine editsTags_startTag.around (fun s _ _ h => ?_) hp
  unfold emptied
  split
  · exact ⟨fun c hc => .inl (Markup.mem_cleanse hc), unshielded_cleanse h.2 h.1, trivial⟩
  · exact ⟨fun c hc => .inl hc, h.1, trivial⟩

/-! ### Images -/

/-- A tag is taken by its name, as a whole, or is not there. -/
theorem openTag?_tag {name : String} (hname : IsTagName name) {s : List Char} (hs : '>' ∉ s) (v : List Char) :
    ((tagStart? name (tagText s)).isSome = false ∧ openTag? name (tagText s ++ v) = none) ∨
      (tagStart? name (tagText s)).isSome = true ∧ ∃ k : Cut (tagText s ++ v),
        openTag? name (tagText s ++ v) = some k ∧ k.text = tagText s := by
  cases h : tagStart? name (tagText s) with
  | none =>
    refine .inl ⟨rfl, ?_⟩
    cases hlong : tagStart? name (tagText s ++ v) with
    | none => simp only [openTag?, hlong, Option.bind_eq_bind, Option.bind_none]
    | some k =>
      have := isSome_tagStart?_tagText hname (by rw [hlong]; rfl)
      rw [h] at this
      cases this
  | some k =>
    obtain ⟨w, htext, hw, hend⟩ := tagStart?_some h
    have hcut := k.append_eq
    rw [htext] at hcut
    have hmark : '>' ∉ w := fun hm => (nameLetter_of_forall₂ hname hw _ hm).ne (by decide) rfl
    obtain ⟨a, rfl, hrest⟩ := exists_of_append_eq hmark (List.cons.inj hcut).2
    rw [hrest] at hend
    rw [List.mem_append, not_or] at hs
    obtain ⟨k', hk', htext', -⟩ := openTag?_gives (s := tagText (w ++ a) ++ v) (v := v) hw hs.2 hend
      (by simp [openingTag, tagText])
    exact .inr ⟨rfl, k', hk', by rw [htext']; simp [openingTag, tagText]⟩

theorem isTagName_img : IsTagName "img" := by
  have : ∀ a ∈ "img".toList, a.isLower = true := by decide
  exact this

/-- What stands between the marks of an image tag, with its hints. -/
def hintedTag (s : List Char) : List Char :=
  let (attributes, slash) := splitSlash (tagBody "img" (tagText s))
  let lowered := lower attributes
  "img".toList ++ addHint "decoding=" " decoding=\"async\"" lowered
    (addHint "loading=" " loading=\"lazy\"" lowered attributes) ++ slash

/-- What stands between the marks of a tag, with the hints if it is an image tag. -/
def hintedImage (s : List Char) : List Char :=
  if (tagStart? "img" (tagText s)).isSome then hintedTag s else s

theorem editsTags_imageTag : EditsTags imageTag? P hintedImage where
  contextFree := Markup.opensWith_image.contextFree
  atMark := Markup.opensWith_image.atMark
  placeholder i := Markup.opensWith_image.passes_of_first (by decide) (by decide) (mark_not_mem_tail i)
  tag s h₁ h₂ _ v := by
    rcases openTag?_tag isTagName_img h₂ v with ⟨hnone, hopen⟩ | ⟨hsome, k, hopen, htext⟩
    · have himage : imageTag? none (tagText s ++ v) = none := by rw [imageTag?, hopen]; rfl
      rw [hintedImage, if_neg (by rw [hnone]; decide)]
      have hrest := (passes_text Markup.opensWith_image.contextFree Markup.opensWith_image.atMark
        (u := s ++ ['>']) (by simp [h₁])).replaceAll v
      rw [tagText, List.cons_append] at himage ⊢
      rw [replaceAll_of_none Markup.opensWith_image.contextFree himage, hrest]
      rfl
    · have himage : imageTag? none (tagText s ++ v) = some (tagText (hintedTag s), k) := by
        rw [imageTag?, hopen, Option.map_some, htext]
        simp [hintedTag, tagText]
      rw [hintedImage, if_pos hsome,
        replaceAll_of_gives Markup.opensWith_image.contextFree rfl (tagText_ne_nil s) himage htext]

theorem tagBody_tagText (name : String) (s : List Char) : tagBody name (tagText s) = s.drop name.length := by
  rw [tagBody, tagText, List.drop_succ_cons, List.drop_append]
  rcases Nat.lt_or_ge name.length (s.length + 1) with h | h
  · have : name.length - s.length = 0 := by omega
    simp [this]
  · rw [List.drop_eq_nil_of_le (by omega), List.drop_eq_nil_of_le (by simp; omega)]
    rfl

theorem mem_splitSlash {s : List Char} {c : Char} :
    (c ∈ (splitSlash s).1 → c ∈ s) ∧ (c ∈ (splitSlash s).2 → c = '/') := by
  have hdrop : ∀ u : List Char, c ∈ (u.dropWhile isBlank).reverse → c ∈ u := fun u h =>
    (List.dropWhile_suffix isBlank).mem (List.mem_reverse.1 h)
  unfold splitSlash
  split
  · rename_i rest hrev
    refine ⟨fun h => List.mem_reverse.1 ?_, by simp⟩
    rw [hrev]
    exact List.mem_cons_of_mem _ (hdrop _ h)
  · exact ⟨fun h => List.mem_reverse.1 (hdrop _ h), by simp⟩

theorem mem_addHint {mention hint : String} {lowered attributes : List Char} {c : Char}
    (h : c ∈ addHint mention hint lowered attributes) : c ∈ attributes ∨ c ∈ hint.toList := by
  unfold addHint at h
  split at h
  · exact .inl h
  · exact List.mem_append.1 h

theorem mem_hintedTag {s : List Char} {c : Char} (h : c ∈ hintedTag s) :
    c ∈ s ∨ c ≠ '<' ∧ c ≠ '>' ∧ c ≠ '\x00' := by
  have hfixed : ∀ w ∈ ["img".toList, " loading=\"lazy\"".toList, " decoding=\"async\"".toList], ∀ c ∈ w,
      c ≠ '<' ∧ c ≠ '>' ∧ c ≠ '\x00' := by decide
  simp only [hintedTag, List.mem_append] at h
  rcases h with (h | h) | h
  · exact .inr (hfixed _ (by simp) c h)
  · rcases mem_addHint h with h | h
    · rcases mem_addHint h with h | h
      · have := mem_splitSlash.1 h
        rw [tagBody_tagText] at this
        exact .inl (List.mem_of_mem_drop this)
      · exact .inr (hfixed _ (by simp) c h)
    · exact .inr (hfixed _ (by simp) c h)
  · rw [mem_splitSlash.2 h]
    exact .inr (by decide)

/-- An image tag opens no shielded element. -/
theorem unshielded_hintedTag (s : List Char) : Unshielded (hintedTag s) := by
  intro name hname
  simp only [names, List.mem_cons, List.not_mem_nil, or_false] at hname
  rcases hname with rfl | rfl | rfl | rfl <;> exact Markup.tagStart?_of_first rfl (by decide) _

/-- Hints for images keep the elements of a text. -/
theorem exists_hintImages (hp : Outline P p) :
    ∃ p', hintImages (source p) = source p' ∧ Outline (fun _ => True) p' ∧ saved p' = saved p := by
  refine editsTags_imageTag.around (P := P) (fun s _ _ h => ?_) hp
  unfold hintedImage
  split
  · exact ⟨fun c hc => mem_hintedTag hc, unshielded_hintedTag s, trivial⟩
  · exact ⟨fun c hc => .inl hc, h.1, trivial⟩

end PagePress.Html.Shield
