import PagePress.Proofs.Embed
import PagePress.Proofs.Shield

/-!
What the shield pattern takes. An element is spelled by an opening tag, a text in which no closing
tag of it begins, and its closing tag (`Spells`); the pattern takes exactly these, and takes them
wherever they stand (`IsElement.takes`). So a list of segments is what the scan makes of its own
text when each of its pieces is such an element and no plain `<` begins one (`Scanned`).
-/

namespace PagePress.Text

/-- A word is taken where each of its characters has one that counts as the same. -/
theorem Cut.wordBy?_gives_of_forall₂ {same : Char → Char → Bool} {w u v s : List Char}
    (h : List.Forall₂ (fun a c => same a c = true) w u) (hs : s = u ++ v) :
    Cut.Gives (Cut.wordBy? same w s) u v := by
  subst hs
  induction h with
  | nil => exact ⟨_, rfl, rfl, rfl⟩
  | @cons a c w u hac _ ih =>
    obtain ⟨k, hk, ht, hr⟩ := ih
    exact ⟨_, by simp only [Cut.wordBy?, List.cons_append, hac, if_true, hk, Option.map_some]; rfl,
      congrArg (c :: ·) ht, hr⟩

theorem Cut.before?_some {p : List Char → Bool} {s : List Char} {k : Cut s}
    (h : Cut.before? p s = some k) :
    p k.rest = true ∧ ∀ x y, k.text = x ++ y → y ≠ [] → p (y ++ k.rest) = false := by
  induction s with
  | nil =>
    unfold Cut.before? at h
    split at h
    · obtain rfl := Option.some.inj h
      exact ⟨‹_›, fun x y e hy => absurd (List.append_eq_nil_iff.1 e.symm).2 hy⟩
    · cases h
  | cons c s ih =>
    unfold Cut.before? at h
    split at h
    · obtain rfl := Option.some.inj h
      exact ⟨‹_›, fun x y e hy => absurd (List.append_eq_nil_iff.1 e.symm).2 hy⟩
    · rename_i hc
      obtain ⟨k', hk', rfl⟩ := Option.map_eq_some_iff.1 h
      obtain ⟨hstop, hbefore⟩ := ih hk'
      refine ⟨hstop, fun x y e hy => ?_⟩
      cases x with
      | nil =>
        obtain rfl : c :: k'.text = y := e
        simpa [k'.append_eq] using hc
      | cons d x => exact hbefore x y (List.cons.inj e).2 hy

theorem Cut.exists_before? {p : List Char → Bool} {s t : List Char} (ht : t <:+ s) (hp : p t = true) :
    ∃ k, Cut.before? p s = some k := by
  induction s with
  | nil =>
    obtain rfl := List.suffix_nil.1 ht
    exact ⟨_, if_pos hp⟩
  | cons c s ih =>
    by_cases hc : p (c :: s) = true
    · exact ⟨_, if_pos hc⟩
    · rcases List.suffix_cons_iff.1 ht with rfl | ht
      · exact absurd hp hc
      · obtain ⟨k, hk⟩ := ih ht
        exact ⟨_, by rw [Cut.before?, if_neg hc, hk]; rfl⟩

end PagePress.Text

namespace PagePress.Html

open Text

/-! ### Letters of names -/

/-- Beyond ASCII, case is ignored on two letters only. -/
theorem caseless_of_not_ascii {c : Char} (h : ¬ c.toNat < 128) :
    c = 'İ' ∨ c = '\u212A' ∨ caseless c = c := by
  unfold caseless
  split
  · exact .inl ‹_›
  · split
    · exact .inr (.inl ‹_›)
    · refine .inr (.inr (dif_neg fun hupper => h ?_))
      exact (UInt32.le_iff_toNat_le.1 hupper.2).trans_lt (by decide)

/-- Case is ignored on letters only. -/
theorem isLower_caseless_or (c : Char) : (caseless c).isLower = true ∨ caseless c = c := by
  by_cases h : c.toNat < 128
  · have hall : ∀ n < 128, (caseless (.ofNat n)).isLower = true ∨ caseless (.ofNat n) = .ofNat n := by
      decide
    simpa using hall c.toNat h
  · rcases caseless_of_not_ascii h with rfl | rfl | h
    · exact .inl (by decide)
    · exact .inl (by decide)
    · exact .inr h

theorem eq_of_caseless {c d : Char} (hd : d.isLower = false) (h : caseless c = d) : c = d := by
  rcases isLower_caseless_or c with hlower | hc
  · rw [h, hd] at hlower
    cases hlower
  · exact hc.symm.trans h

/-- A letter as it stands in the name of a tag: some letter of the alphabet in either case, or one
of the characters that count as such. -/
def NameLetter (c : Char) : Prop := (caseless c).isLower = true ∨ c = 'ſ' ∨ c = 'ı'

theorem nameLetter_of_sameLetter {a c : Char} (ha : a.isLower = true) (h : sameLetter a c = true) :
    NameLetter c := by
  simp only [sameLetter, Bool.or_eq_true, Bool.and_eq_true, beq_iff_eq] at h
  rcases h with (rfl | ⟨-, rfl⟩) | ⟨-, rfl⟩
  · exact .inl ha
  · exact .inr (.inl rfl)
  · exact .inr (.inr rfl)

namespace NameLetter

variable {a b : Char}

theorem of_same (ha : NameLetter a) (h : sameCaseless a b = true) : NameLetter b := by
  have h : caseless b = caseless a := (by simpa [sameCaseless] using h : caseless a = caseless b).symm
  rcases ha with ha | rfl | rfl
  · exact .inl (h ▸ ha)
  · exact .inr (.inl (eq_of_caseless (by decide) (h.trans (by decide))))
  · exact .inr (.inr (eq_of_caseless (by decide) (h.trans (by decide))))

theorem ascii_or (h : NameLetter a) : (a.toNat < 128 ∧ (caseless a).isLower = true) ∨
    a ∈ ['İ', '\u212A', 'ſ', 'ı'] := by
  rcases h with h | rfl | rfl
  · by_cases hascii : a.toNat < 128
    · exact .inl ⟨hascii, h⟩
    · rcases caseless_of_not_ascii hascii with rfl | rfl | hc
      · exact .inr (by simp)
      · exact .inr (by simp)
      · rw [hc] at h
        exact absurd (Markup.toNat_of_isNameChar (by simp [Markup.isNameChar, h])) hascii
  · exact .inr (by simp)
  · exact .inr (by simp)

/-- A letter is neither white space nor a mark, and it belongs to words. -/
theorem meaning (h : NameLetter a) :
    isBlank a = false ∧ isWord a = true ∧ a ∉ ['<', '>', '/', '\x00'] := by
  rcases h.ascii_or with ⟨hascii, h⟩ | h
  · have hall : ∀ n < 128, (caseless (.ofNat n)).isLower = true →
        isBlank (.ofNat n) = false ∧ isWord (.ofNat n) = true ∧
          Char.ofNat n ∉ ['<', '>', '/', '\x00'] := by decide
    simpa using hall a.toNat hascii (by simpa using h)
  · have hall : ∀ c ∈ ['İ', '\u212A', 'ſ', 'ı'],
        isBlank c = false ∧ isWord c = true ∧ c ∉ ['<', '>', '/', '\x00'] := by decide +kernel
    exact hall a h

theorem isBlank (h : NameLetter a) : isBlank a = false := h.meaning.1

theorem isWord (h : NameLetter a) : isWord a = true := h.meaning.2.1

theorem ne {c : Char} (h : NameLetter a) (hc : c ∈ ['<', '>', '/', '\x00'] := by decide) : a ≠ c := by
  rintro rfl
  exact h.meaning.2.2 hc

end NameLetter

/-! ### Tags -/

/-- A tag, given by what stands between its marks. -/
def tagText (s : List Char) : List Char := '<' :: (s ++ ['>'])

theorem tagText_append (s v : List Char) : tagText s ++ v = '<' :: s ++ '>' :: v := by simp [tagText]

@[simp] theorem mem_tagText {s : List Char} {c : Char} : c ∈ tagText s ↔ c = '<' ∨ c ∈ s ∨ c = '>' := by
  simp [tagText]

@[simp] theorem tagText_ne_nil (s : List Char) : tagText s ≠ [] := by simp [tagText]

/-- The names of tags that patterns look for are words of small letters. -/
def IsTagName (name : String) : Prop := ∀ a ∈ name.toList, a.isLower = true

theorem nameLetter_of_forall₂ (hname : IsTagName name) {w : List Char}
    (h : List.Forall₂ (fun a c => sameLetter a c = true) name.toList w) : ∀ c ∈ w, NameLetter c := by
  intro c hc
  obtain ⟨i, hi, rfl⟩ := List.mem_iff_getElem.1 hc
  have hi' : i < name.toList.length := h.length_eq ▸ hi
  exact nameLetter_of_sameLetter (hname _ (List.getElem_mem hi')) (h.get hi' hi)

theorem nameLetter_of_sameCaseless {w w' : List Char} (hw : ∀ c ∈ w, NameLetter c)
    (h : List.Forall₂ (fun a c => sameCaseless a c = true) w w') : ∀ c ∈ w', NameLetter c := by
  intro c hc
  obtain ⟨i, hi, rfl⟩ := List.mem_iff_getElem.1 hc
  have hi' : i < w.length := h.length_eq ▸ hi
  exact (hw _ (List.getElem_mem hi')).of_same (h.get hi' hi)

section

variable {name : String} {s v w a : List Char}

/-- Behind the end of a tag nothing belongs to its words. -/
theorem endsWord_append_mark (a v : List Char) : endsWord (a ++ '>' :: v) = endsWord (a ++ ['>']) := by
  cases a <;> rfl

theorem tagStart?_some {k : Cut s} (h : tagStart? name s = some k) :
    ∃ w, k.text = '<' :: w ∧ List.Forall₂ (fun a c => sameLetter a c = true) name.toList w ∧
      endsWord k.rest = true := by
  simp only [tagStart?, Option.bind_eq_bind, Option.bind_eq_some_iff] at h
  obtain ⟨mark, hmark, word, hword, h⟩ := h
  split at h
  · rename_i hend
    obtain rfl := Option.some.inj h
    refine ⟨word.text, ?_, Cut.same_of_wordBy? hword, hend⟩
    rw [Cut.andThen_text, Cut.text_of_char?_beq hmark]
    rfl
  · cases h

theorem tagStart?_gives (hw : List.Forall₂ (fun a c => sameLetter a c = true) name.toList w)
    (hv : endsWord v = true) (hs : s = '<' :: (w ++ v)) :
    Cut.Gives (tagStart? name s) ('<' :: w) v := by
  obtain ⟨mark, hmark, tmark, rmark⟩ := Cut.char?_gives (p := (· == '<')) hs rfl
  obtain ⟨word, hword, tword, rword⟩ := Cut.wordBy?_gives_of_forall₂ hw rmark
  have hend : endsWord word.rest = true := by rw [rword, hv]
  refine ⟨mark.andThen word, ?_, ?_, rword⟩
  · simp only [tagStart?, Option.bind_eq_bind, hmark, Option.bind_some, Cut.wordAnyCase?, hword]
    rw [if_pos hend]
  · rw [Cut.andThen_text, tmark, tword]
    rfl

/-- Whether a tag starts with a name is known from its own characters. -/
theorem isSome_tagStart?_of_append (hname : IsTagName name)
    (h : (tagStart? name (s ++ '>' :: v)).isSome = true) : (tagStart? name (s ++ ['>'])).isSome = true := by
  obtain ⟨k, hk⟩ := Option.isSome_iff_exists.1 h
  obtain ⟨w, htext, hw, hend⟩ := tagStart?_some hk
  have happend := k.append_eq
  rw [htext] at happend
  have hinner : '>' ∉ '<' :: w := by
    rw [List.mem_cons, not_or]
    exact ⟨by decide, fun hm => (nameLetter_of_forall₂ hname hw _ hm).ne (by decide) rfl⟩
  obtain ⟨z, rfl, hz⟩ := exists_of_append_eq hinner happend
  rw [hz, endsWord_append_mark] at hend
  obtain ⟨k', hk', -⟩ := tagStart?_gives hw hend (s := '<' :: w ++ z ++ ['>']) (by simp)
  rw [hk']
  rfl

theorem isSome_tagStart?_tagText (hname : IsTagName name)
    (h : (tagStart? name (tagText s ++ v)).isSome = true) : (tagStart? name (tagText s)).isSome = true := by
  rw [tagText_append] at h
  exact isSome_tagStart?_of_append (s := '<' :: s) hname h

theorem throughClose?_some {k : Cut s} (h : throughClose? s = some k) :
    ∃ a, k.text = a ++ ['>'] ∧ '>' ∉ a := by
  simp only [throughClose?, Option.bind_eq_bind, Option.bind_eq_some_iff, Option.pure_def,
    Option.some.injEq] at h
  obtain ⟨close, hclose, rfl⟩ := h
  refine ⟨s.takeWhile (· != '>'), ?_, fun hm => ?_⟩
  · rw [Cut.andThen_text, Cut.text_of_char?_beq hclose]
    rfl
  · simpa using List.mem_takeWhile_imp hm

end

/-- An opening tag: its name, its attributes, and no `>` among them. -/
def openingTag (word attrs : List Char) : List Char := '<' :: (word ++ (attrs ++ ['>']))

/-- A closing tag: its name, and white space after it. -/
def closingTag (word space : List Char) : List Char := '<' :: '/' :: (word ++ (space ++ ['>']))

section

variable {name : String} {s v w a : List Char}

theorem openTag?_some {k : Cut s} (h : openTag? name s = some k) :
    ∃ w a, k.text = openingTag w a ∧ '>' ∉ a ∧ endsWord (a ++ ['>']) = true ∧
      List.Forall₂ (fun a c => sameLetter a c = true) name.toList w := by
  simp only [openTag?, Option.bind_eq_bind, Option.bind_eq_some_iff, Option.pure_def,
    Option.some.injEq] at h
  obtain ⟨start, hstart, rest, hrest, rfl⟩ := h
  obtain ⟨w, hw, hsame, hend⟩ := tagStart?_some hstart
  obtain ⟨a, ha, hmark⟩ := throughClose?_some hrest
  refine ⟨w, a, ?_, hmark, ?_, hsame⟩
  · rw [Cut.andThen_text, hw, ha]
    rfl
  · rwa [← rest.append_eq, ha, List.append_assoc, List.singleton_append, endsWord_append_mark] at hend

theorem openTag?_gives (hw : List.Forall₂ (fun a c => sameLetter a c = true) name.toList w)
    (ha : '>' ∉ a) (hend : endsWord (a ++ ['>']) = true) (hs : s = openingTag w a ++ v) :
    Cut.Gives (openTag? name s) (openingTag w a) v := by
  rw [← endsWord_append_mark a v] at hend
  obtain ⟨start, hstart, tstart, rstart⟩ :=
    tagStart?_gives hw hend (s := s) (by simp [hs, openingTag])
  obtain ⟨rest, hrest, trest, rrest⟩ := Markup.throughClose?_gives rstart ha
  refine ⟨start.andThen rest, ?_, ?_, rrest⟩
  · simp only [openTag?, Option.bind_eq_bind, hstart, hrest, Option.bind_some, Option.pure_def]
  · rw [Cut.andThen_text, tstart, trest]
    rfl

variable {same : Char → Char → Bool} {word space : List Char}

theorem closeTag?_some {k : Cut s} (h : closeTag? same word s = some k) :
    ∃ w space, k.text = closingTag w space ∧ (∀ c ∈ space, isBlank c = true) ∧
      List.Forall₂ (fun a c => same a c = true) word w := by
  simp only [closeTag?, Option.bind_eq_bind, Option.bind_eq_some_iff, Option.pure_def,
    Option.some.injEq] at h
  obtain ⟨mark, hmark, name, hname, close, hclose, rfl⟩ := h
  refine ⟨name.text, name.rest.takeWhile isBlank, ?_, fun c hc => List.mem_takeWhile_imp hc,
    Cut.same_of_wordBy? hname⟩
  show mark.text ++ name.text ++ name.rest.takeWhile isBlank ++ close.text = _
  rw [Cut.text_of_word? hmark, Cut.text_of_char?_beq hclose]
  simp [closingTag]

theorem closeTag?_gives (hw : List.Forall₂ (fun a c => same a c = true) word w)
    (hspace : ∀ c ∈ space, isBlank c = true) (hs : s = closingTag w space ++ v) :
    Cut.Gives (closeTag? same word s) (closingTag w space) v := by
  obtain ⟨mark, hmark, tmark, rmark⟩ := Cut.word?_gives (s := s) (w := "</")
    (v := w ++ (space ++ '>' :: v)) (by simp [hs, closingTag])
  obtain ⟨name, hname, tname, rname⟩ := Cut.wordBy?_gives_of_forall₂ hw rmark
  obtain ⟨htake, hdrop⟩ := Cut.span_gives_cons rname hspace (by decide)
  obtain ⟨close, hclose, tclose, rclose⟩ := Cut.char?_gives (p := (· == '>')) hdrop rfl
  refine ⟨((mark.andThen name).andThen (Cut.span isBlank name.rest)).andThen close, ?_, ?_, rclose⟩
  · simp only [closeTag?, Option.bind_eq_bind, hmark, hname, hclose, Option.bind_some, Option.pure_def]
  · show mark.text ++ name.text ++ (Cut.span isBlank name.rest).text ++ close.text = _
    rw [tmark, tname, tclose, htake]
    simp [closingTag]

/-- A closing tag is found in front of a text that begins with one. -/
theorem isSome_closeTag? : (closeTag? same word s).isSome = true ↔ ∃ w space v,
    s = closingTag w space ++ v ∧ (∀ c ∈ space, isBlank c = true) ∧
      List.Forall₂ (fun a c => same a c = true) word w := by
  rw [Option.isSome_iff_exists]
  constructor
  · rintro ⟨k, hk⟩
    obtain ⟨w, space, htext, hspace, hw⟩ := closeTag?_some hk
    exact ⟨w, space, k.rest, by rw [← htext, k.append_eq], hspace, hw⟩
  · rintro ⟨w, space, v, hs, hspace, hw⟩
    obtain ⟨k, hk, -⟩ := closeTag?_gives hw hspace hs
    exact ⟨k, hk⟩

/-- What begins with a closing tag does so whatever follows. -/
theorem isSome_closeTag?_append (h : (closeTag? same word s).isSome = true) (v : List Char) :
    (closeTag? same word (s ++ v)).isSome = true := by
  obtain ⟨w, space, u, rfl, hw⟩ := isSome_closeTag?.1 h
  exact isSome_closeTag?.2 ⟨w, space, u ++ v, List.append_assoc .., hw⟩

/-- A closing tag does not go beyond the first `>`. -/
theorem isSome_closeTag?_of_append (hword : ∀ a ∈ word, same a '>' = false) (hs : '>' ∈ s)
    (h : (closeTag? same word (s ++ v)).isSome = true) : (closeTag? same word s).isSome = true := by
  obtain ⟨w, space, u, hcut, hspace, hw⟩ := isSome_closeTag?.1 h
  have hinner : '>' ∉ '<' :: '/' :: (w ++ space) := by
    have h1 : '>' ∉ w := fun hm => by
      obtain ⟨i, hi, hget⟩ := List.mem_iff_getElem.1 hm
      have := hw.get (hw.length_eq ▸ hi) hi
      simp only [List.get_eq_getElem, hget] at this
      rw [hword _ (List.getElem_mem _)] at this
      cases this
    have h2 : '>' ∉ space := fun hm => absurd (hspace _ hm) (by decide)
    simp [h1, h2]
  -- The mark that `s` holds stands behind the rest of the closing tag, and ends it if it is the first.
  obtain ⟨x, y, rfl⟩ := List.append_of_mem hs
  obtain ⟨z, hz, hrest⟩ := exists_of_append_eq (c := '>') (v := '>' :: u) hinner
    (by simpa [closingTag] using hcut.symm)
  obtain ⟨z', hz'⟩ : ∃ z', x ++ '>' :: y = closingTag w space ++ z' := by
    cases z with
    | nil => exact ⟨y, by rw [hz]; simp [closingTag]⟩
    | cons c z =>
      obtain ⟨rfl, -⟩ := List.cons.inj hrest
      exact ⟨z ++ '>' :: y, by rw [hz]; simp [closingTag]⟩
  exact isSome_closeTag?.2 ⟨w, space, z', hz', hspace, hw⟩

end

/-! ### Elements -/

/-- An element as it stands in a text. -/
structure RawElement where
  word : List Char
  attrs : List Char
  body : List Char
  closingWord : List Char
  space : List Char

namespace RawElement

def opening (e : RawElement) : List Char := openingTag e.word e.attrs

def closing (e : RawElement) : List Char := closingTag e.closingWord e.space

def text (e : RawElement) : List Char := e.opening ++ e.body ++ e.closing

/-- The element is taken as a whole by a pattern for the tag `name` whose closing tag is compared
with `word`. -/
structure Spells (same : Char → Char → Bool) (name : String) (word : List Char) (e : RawElement) :
    Prop where
  opens : List.Forall₂ (fun a c => sameLetter a c = true) name.toList e.word
  attrs : '>' ∉ e.attrs
  endsWord : endsWord (e.attrs ++ ['>']) = true
  closes : List.Forall₂ (fun a c => same a c = true) word e.closingWord
  space : ∀ c ∈ e.space, isBlank c = true
  body : ∀ x y, e.body = x ++ y → y ≠ [] → closeTag? same word (y ++ e.closing) = none

end RawElement

section

variable {s v : List Char} {same : Char → Char → Bool} {name : String} {word : List Char}

theorem elementAfter?_some {opening : Cut s} {close : (t : List Char) → Option (Cut t)} {e : Element s}
    (h : elementAfter? opening close = some e) :
    e.opening = opening ∧ close e.body.rest = some e.closing ∧
      ∀ x y, e.body.text = x ++ y → y ≠ [] → close (y ++ e.body.rest) = none := by
  simp only [elementAfter?, Option.bind_eq_bind, Option.bind_eq_some_iff, Option.pure_def,
    Option.some.injEq] at h
  obtain ⟨body, hbody, closing, hclosing, rfl⟩ := h
  refine ⟨rfl, hclosing, fun x y e hy => ?_⟩
  simpa using (Cut.before?_some hbody).2 x y e hy

/-- What is completed to an element spells one. -/
theorem exists_spells {opening : Cut s} (hopening : openTag? name s = some opening) {e : Element s}
    (he : elementAfter? opening (closeTag? same word) = some e) :
    ∃ r : RawElement, r.Spells same name word ∧
      Markup.Element.Parts e r.opening r.body r.closing e.closing.rest := by
  obtain ⟨rfl, hclosing, hbody⟩ := elementAfter?_some he
  obtain ⟨w, a, ho, hmark, hend, hw⟩ := openTag?_some hopening
  obtain ⟨w', space, hc, hspace, hw'⟩ := closeTag?_some hclosing
  refine ⟨⟨w, a, e.body.text, w', space⟩, ⟨hw, hmark, hend, hw', hspace, fun x y hxy hy => ?_⟩,
    ho, rfl, hc, rfl⟩
  have hnone := hbody x y hxy hy
  by_contra hsome
  have hsome := isSome_closeTag?_append (Option.isSome_iff_ne_none.2 hsome) e.closing.rest
  rw [List.append_assoc] at hsome
  have hrest : closingTag w' space ++ e.closing.rest = e.body.rest := by
    rw [← hc, e.closing.append_eq]
  rw [RawElement.closing, hrest, hnone] at hsome
  cases hsome

/-- A spelled element is completed from its opening tag, whatever follows. -/
theorem exists_elementAfter? {r : RawElement} (h : r.Spells same name word)
    (hword : ∀ a ∈ word, same a '>' = false) (hs : s = r.text ++ v) :
    ∃ o e, openTag? name s = some o ∧ o.text = r.opening ∧
      elementAfter? o (closeTag? same word) = some e ∧
      Markup.Element.Parts e r.opening r.body r.closing v := by
  obtain ⟨o, ho, topen, ropen⟩ := openTag?_gives (s := s) (v := r.body ++ (r.closing ++ v)) h.opens h.attrs
    h.endsWord (by simp [hs, RawElement.text, RawElement.opening])
  have hclose : ∀ t, t = r.closing ++ v → Cut.Gives (closeTag? same word t) r.closing v :=
    fun t ht => closeTag?_gives h.closes h.space ht
  have hmark : '>' ∈ r.closing := by simp [RawElement.closing, closingTag]
  have hbefore : ∀ x c y, r.body = x ++ c :: y →
      (closeTag? same word (c :: y ++ (r.closing ++ v))).isSome = false := by
    intro x c y e
    by_contra hsome
    rw [Bool.not_eq_false, ← List.append_assoc] at hsome
    have := isSome_closeTag?_of_append hword (by simp [hmark]) hsome
    rw [h.body x (c :: y) e (by simp)] at this
    cases this
  obtain ⟨body, hb, tb, rb⟩ := Cut.before?_gives (p := fun t => (closeTag? same word t).isSome) ropen
    hbefore (by obtain ⟨k, hk, -⟩ := hclose _ rfl; rw [hk]; rfl)
  obtain ⟨closing, hc, tc, rc⟩ := hclose _ rb
  refine ⟨o, ⟨o, body, closing⟩, ho, topen, ?_, topen, tb, tc, rc⟩
  simp only [elementAfter?, hb, hc, Option.bind_eq_bind, Option.bind_some, Option.pure_def]

theorem RawElement.Spells.take_drop {r : RawElement} (h : r.Spells same name word) :
    (r.opening.drop 1).take name.length = r.word := by
  have hlength : name.length = r.word.length := by
    rw [← h.opens.length_eq, String.length_toList]
  rw [hlength, RawElement.opening, openingTag, List.drop_one, List.tail_cons, List.take_left]

end

section

variable {s v : List Char} {name : String}

/-- An element whose closing tag repeats the name of its opening tag. -/
theorem elementRepeating?_some {e : Element s} (h : elementRepeating? name s = some e) :
    ∃ r : RawElement, r.Spells sameCaseless name r.word ∧
      Markup.Element.Parts e r.opening r.body r.closing e.closing.rest := by
  simp only [elementRepeating?, Option.bind_eq_bind, Option.bind_eq_some_iff] at h
  obtain ⟨o, ho, h⟩ := h
  obtain ⟨r, hr, hparts⟩ := exists_spells ho h
  have hopening : e.opening = o := (elementAfter?_some h).1
  rw [← hopening, hparts.opening, hr.take_drop] at hr
  exact ⟨r, hr, hparts⟩

theorem not_sameCaseless_mark {w : List Char} (hw : ∀ c ∈ w, NameLetter c) :
    ∀ a ∈ w, sameCaseless a '>' = false := by
  intro a ha
  by_contra h
  exact ((hw a ha).of_same (by simpa using h)).ne (by decide) rfl

theorem exists_elementRepeating? (hname : IsTagName name) {r : RawElement}
    (h : r.Spells sameCaseless name r.word) (hs : s = r.text ++ v) :
    ∃ e, elementRepeating? name s = some e ∧
      Markup.Element.Parts e r.opening r.body r.closing v := by
  have hword := not_sameCaseless_mark (nameLetter_of_forall₂ hname h.opens)
  obtain ⟨o, e, ho, topen, he, hparts⟩ := exists_elementAfter? h hword hs
  refine ⟨e, ?_, hparts⟩
  simp only [elementRepeating?, ho, Option.bind_eq_bind, Option.bind_some, topen, h.take_drop, he]

/-- An element whose closing tag has the name looked for, whatever its opening tag has. -/
theorem exists_element? (hname : IsTagName name) {r : RawElement}
    (h : r.Spells sameLetter name name.toList) (hs : s = r.text ++ v) :
    ∃ e, element? name s = some e ∧ Markup.Element.Parts e r.opening r.body r.closing v := by
  have hword : ∀ a ∈ name.toList, sameLetter a '>' = false := by
    intro a ha
    by_contra hsame
    exact (nameLetter_of_sameLetter (hname a ha) (by simpa using hsame)).ne (by decide) rfl
  obtain ⟨o, e, ho, -, he, hparts⟩ := exists_elementAfter? h hword hs
  refine ⟨e, ?_, hparts⟩
  simp only [element?, ho, Option.bind_eq_bind, Option.bind_some, he]

end

end PagePress.Html

namespace PagePress.Html.Shield

open Text

/-! ### The shield pattern -/

theorem isTagName_of_mem {name : String} (h : name ∈ names) : IsTagName name := by
  have : ∀ n ∈ names, ∀ a ∈ n.toList, a.isLower = true := by decide
  exact this name h

/-- A character counts as one small letter at most. -/
theorem eq_of_sameLetter {a b c : Char} (ha : a.isLower = true) (hb : b.isLower = true)
    (hac : sameLetter a c = true) (hbc : sameLetter b c = true) : a = b := by
  have hlong : ∀ d : Char, d = 'ſ' ∨ d = 'ı' → (caseless d).isLower = false := by
    rintro d (rfl | rfl) <;> decide
  simp only [sameLetter, Bool.or_eq_true, Bool.and_eq_true, beq_iff_eq] at hac hbc
  rcases hac with (rfl | ⟨rfl, rfl⟩) | ⟨rfl, rfl⟩ <;> rcases hbc with (rfl | ⟨rfl, hc⟩) | ⟨rfl, hc⟩
  · rfl
  · rw [hlong _ (.inl hc)] at ha
    cases ha
  · rw [hlong _ (.inr hc)] at ha
    cases ha
  · exact absurd hb (by decide)
  · rfl
  · exact absurd hc (by decide)
  · exact absurd hb (by decide)
  · exact absurd hc (by decide)
  · rfl

/-- Of two names found at one place, one begins with the other. -/
theorem prefix_or_prefix {as bs w w' x y : List Char} (ha : ∀ a ∈ as, a.isLower = true)
    (hb : ∀ b ∈ bs, b.isLower = true) (hw : List.Forall₂ (fun a c => sameLetter a c = true) as w)
    (hw' : List.Forall₂ (fun a c => sameLetter a c = true) bs w') (h : w ++ x = w' ++ y) :
    as <+: bs ∨ bs <+: as := by
  induction hw generalizing bs w' with
  | nil => exact .inl (List.nil_prefix)
  | @cons a c as w hac hw ih =>
    cases hw' with
    | nil => exact .inr (List.nil_prefix)
    | @cons b d bs w' hbd hw' =>
      obtain ⟨rfl, hrest⟩ := List.cons.inj h
      obtain rfl := eq_of_sameLetter (ha a (by simp)) (hb b (by simp)) hac hbd
      rcases ih (fun a h => ha a (by simp [h])) (fun b h => hb b (by simp [h])) hw' hrest with h | h
      · exact .inl (List.cons_prefix_cons.2 ⟨rfl, h⟩)
      · exact .inr (List.cons_prefix_cons.2 ⟨rfl, h⟩)

/-- The names of two shielded elements that begin at one place are the same. -/
theorem name_unique {n m : String} (hn : n ∈ names) (hm : m ∈ names) {w w' x y : List Char}
    (hw : List.Forall₂ (fun a c => sameLetter a c = true) n.toList w)
    (hw' : List.Forall₂ (fun a c => sameLetter a c = true) m.toList w') (h : w ++ x = w' ++ y) :
    m = n := by
  have hall : ∀ a ∈ names, ∀ b ∈ names, a.toList <+: b.toList → a = b := by decide
  rcases prefix_or_prefix (isTagName_of_mem hn) (isTagName_of_mem hm) hw hw' h with hp | hp
  · exact (hall n hn m hm hp).symm
  · exact hall m hm n hn hp

/-- A text that the shield pattern takes as a whole. -/
def IsElement (u : List Char) : Prop :=
  ∃ name ∈ names, ∃ r : RawElement, r.Spells sameCaseless name r.word ∧ u = r.text

theorem isElement_of_shielded? {b : Option Char} {s : List Char} {a : Unit} {k : Cut s}
    (h : shielded? b s = some (a, k)) : IsElement k.text := by
  simp only [shielded?, Option.map_eq_some_iff, Prod.mk.injEq] at h
  obtain ⟨e, he, -, rfl⟩ := h
  obtain ⟨name, hname, he⟩ := List.exists_of_findSome?_eq_some he
  obtain ⟨r, hr, hparts⟩ := elementRepeating?_some he
  exact ⟨name, hname, r, hr, hparts.cut_text⟩

/-- What an element that begins at a mark is spelled by. -/
theorem exists_of_shielded? {s : List Char} (h : shielded? none ('<' :: s) ≠ none) :
    ∃ name ∈ names, ∃ r : RawElement, r.Spells sameCaseless name r.word ∧
      ∃ v, s = r.word ++ (r.attrs ++ '>' :: (r.body ++ (r.closing ++ v))) := by
  obtain ⟨⟨a, k⟩, hk⟩ := Option.ne_none_iff_exists'.1 h
  obtain ⟨name, hname, r, hr, htext⟩ := isElement_of_shielded? hk
  have hcut := congrArg List.tail k.append_eq
  rw [htext] at hcut
  exact ⟨name, hname, r, hr, k.rest, by simpa [RawElement.text, RawElement.opening, openingTag] using hcut.symm⟩

theorem findSome?_eq_of_unique {α β : Type} {f : α → Option β} {l : List α} {a : α} (ha : a ∈ l)
    (h : ∀ b ∈ l, f b ≠ none → b = a) : l.findSome? f = f a := by
  induction l with
  | nil => cases ha
  | cons b l ih =>
    have hl : ∀ b ∈ l, f b ≠ none → b = a := fun c hc => h c (by simp [hc])
    cases hb : f b with
    | some x =>
      obtain rfl := h b (by simp) (by simp [hb])
      rw [List.findSome?_cons, hb]
    | none =>
      rw [List.findSome?_cons, hb]
      rcases List.mem_cons.1 ha with rfl | ha
      · rw [hb, List.findSome?_eq_none_iff]
        intro c hc
        by_contra hne
        exact hne (hl c hc hne ▸ hb)
      · exact ih ha hl

theorem IsElement.exists_shielded? {u : List Char} (h : IsElement u) (v : List Char) :
    ∃ k : Cut (u ++ v), shielded? none (u ++ v) = some ((), k) ∧ k.text = u := by
  obtain ⟨name, hname, r, hr, rfl⟩ := h
  obtain ⟨e, he, hparts⟩ := exists_elementRepeating? (isTagName_of_mem hname) hr (v := v) rfl
  refine ⟨e.cut, ?_, hparts.cut_text⟩
  have hunique : ∀ m ∈ names, elementRepeating? m (r.text ++ v) ≠ none → m = name := by
    intro m hm hne
    obtain ⟨e', he'⟩ := Option.ne_none_iff_exists'.1 hne
    obtain ⟨r', hr', hparts'⟩ := elementRepeating?_some he'
    have hcut := e'.cut.append_eq
    rw [hparts'.cut_text] at hcut
    refine name_unique hname hm hr.opens hr'.opens (x := r.attrs ++ '>' :: (r.body ++ r.closing ++ v))
      (y := r'.attrs ++ '>' :: (r'.body ++ r'.closing ++ e'.cut.rest)) ?_
    have htail := congrArg List.tail hcut
    simpa [RawElement.text, RawElement.opening, openingTag] using htail.symm
  rw [shielded?, findSome?_eq_of_unique hname hunique, he]
  rfl

theorem IsElement.ne_nil {u : List Char} (h : IsElement u) : u ≠ [] := by
  obtain ⟨_, _, r, _, rfl⟩ := h
  simp [RawElement.text, RawElement.opening, openingTag]

/-- An element is taken as a whole wherever it stands. -/
theorem IsElement.takes {u : List Char} (h : IsElement u) : Takes shielded? u () :=
  takes_of_eq (fun _ _ => rfl) h.ne_nil h.exists_shielded?

theorem exists_concat_of_isElement {u : List Char} (h : IsElement u) : ∃ w, u = tagText w := by
  obtain ⟨_, _, r, _, rfl⟩ := h
  exact ⟨r.word ++ (r.attrs ++ ['>']) ++ r.body ++ '<' :: '/' :: (r.closingWord ++ r.space),
    by simp [RawElement.text, RawElement.opening, RawElement.closing, openingTag, closingTag, tagText]⟩

/-- A tag, given by what stands between its marks, that opens no shielded element. -/
def Unshielded (s : List Char) : Prop := ∀ name ∈ names, tagStart? name (tagText s) = none

instance (s : List Char) : Decidable (Unshielded s) :=
  decidable_of_iff (∀ name ∈ names, (tagStart? name (tagText s)).isNone = true) (by simp [Unshielded])

/-- No element begins where no tag starts with the name of one. -/
theorem shielded?_of_tagStart? {s : List Char} (h : ∀ name ∈ names, tagStart? name s = none) :
    shielded? none s = none :=
  Markup.opensWith_shielded.none s fun m hm => by simp [openTag?, h m hm]

theorem shielded?_of_ne_mark {c : Char} (hc : c ≠ '<') (s : List Char) :
    shielded? none (c :: s) = none :=
  Markup.opensWith_shielded.atMark c s hc

/-- What begins with no element does so without what follows. -/
theorem shielded?_of_append {s v : List Char} (h : shielded? none (s ++ v) = none) :
    shielded? none s = none := by
  cases hs : shielded? none s with
  | none => rfl
  | some x =>
    obtain ⟨a, k⟩ := x
    obtain ⟨k', hk', -⟩ := (isElement_of_shielded? hs).exists_shielded? (k.rest ++ v)
    have hcut : k.text ++ (k.rest ++ v) = s ++ v := by rw [← List.append_assoc, k.append_eq]
    have hsome : (shielded? none (s ++ v)).isSome = true := by
      rw [← hcut, hk']
      rfl
    rw [h] at hsome
    cases hsome

theorem passes_shielded {u : List Char} (hu : '<' ∉ u) : Passes shielded? u :=
  passes_text Markup.opensWith_shielded.contextFree Markup.opensWith_shielded.atMark hu

/-- The scan goes over a tag that opens no shielded element. -/
theorem passes_shielded_tag {s : List Char} (hs : '<' ∉ s) (h : Unshielded s) :
    Passes shielded? (tagText s) := by
  refine passes_cons Markup.opensWith_shielded.contextFree (fun v => ?_)
    (passes_shielded (by simp [hs]))
  refine shielded?_of_tagStart? fun name hname => ?_
  by_contra hne
  have := isSome_tagStart?_tagText (isTagName_of_mem hname) (Option.isSome_iff_ne_none.2 hne)
  rw [h name hname] at this
  cases this

/-! ### What a scan leaves -/

variable {α : Type}

/-- The scan for shielded elements makes of the text of some segments these segments again. -/
def Scanned (p : List (Segment α)) : Prop := segments shielded? (source p) = forget p

theorem scanned_nil : Scanned ([] : List (Segment α)) := segments_nil

theorem segments_shielded?_of_none {c : Char} {s : List Char} (h : shielded? none (c :: s) = none) :
    segments shielded? (c :: s) = .plain c :: segments shielded? s := by
  rw [segments, segmentsFrom_of_none h, segmentsFrom_eq_segments fun _ _ => rfl]

/-- A character is scanned as one where no element begins. -/
theorem scanned_plain_cons {c : Char} {p : List (Segment α)} :
    Scanned (.plain c :: p) ↔ shielded? none (c :: source p) = none ∧ Scanned p := by
  constructor
  · intro h
    cases hs : shielded? none (c :: source p) with
    | none =>
      refine ⟨rfl, ?_⟩
      rw [Scanned, source_plain, segments_shielded?_of_none hs, forget_plain] at h
      exact (List.cons.inj h).2
    | some x =>
      obtain ⟨a, k⟩ := x
      have hne := (isElement_of_shielded? hs).ne_nil
      have hcut : c :: source p = k.text ++ k.rest := k.append_eq.symm
      rw [Scanned, source_plain, hcut, (isElement_of_shielded? hs).takes] at h
      cases h
  · rintro ⟨hs, h⟩
    rw [Scanned, source_plain, segments_shielded?_of_none hs, h, forget_plain]

theorem scanned_piece_cons {u : List Char} (hu : IsElement u) {a : α} {p : List (Segment α)} :
    Scanned (.piece u a :: p) ↔ Scanned p := by
  rw [Scanned, source_piece, hu.takes, forget_piece, List.cons.injEq]
  exact and_iff_right rfl

/-- The two parts of scanned segments are scanned each for itself. -/
theorem scanned_of_append {p q : List (Segment α)} (hp : ∀ u a, Segment.piece u a ∈ p → IsElement u)
    (h : Scanned (p ++ q)) : Scanned p ∧ Scanned q := by
  induction p with
  | nil => exact ⟨scanned_nil, h⟩
  | cons x p ih =>
    have ih := ih fun u a hu => hp u a (List.mem_cons_of_mem _ hu)
    rw [List.cons_append] at h
    cases x with
    | plain c =>
      obtain ⟨hnone, h⟩ := scanned_plain_cons.1 h
      rw [source_append, ← List.cons_append] at hnone
      exact ⟨scanned_plain_cons.2 ⟨shielded?_of_append hnone, (ih h).1⟩, (ih h).2⟩
    | piece u a =>
      have hu : IsElement u := hp u a (by simp)
      have h := (scanned_piece_cons hu).1 h
      exact ⟨(scanned_piece_cons hu).2 (ih h).1, (ih h).2⟩

/-- The pieces of a scan are elements, and the scan of its own text is the same again. -/
theorem scanned_segments (s : List Char) :
    Scanned (segments shielded? s) ∧
      ∀ u a, Segment.piece u a ∈ segments shielded? s → IsElement u := by
  refine ⟨?_, ?_⟩
  · rw [Scanned, forget_unit]
    exact congrArg _ (source_segments shielded? s)
  · intro u a h
    unfold segments at h
    generalize none = b at h
    fun_induction segmentsFrom shielded? b s with
    | case1 => cases h
    | case2 b c s _ ih => exact ih (by simpa using h)
    | case3 b c s a k _ _ ih => exact ih (by simpa using h)
    | case4 b c s a' k hk _ _ ih =>
      rcases List.mem_cons.1 h with h | h
      · injection h with hu _
        rw [hu]
        exact isElement_of_shielded? hk
      · exact ih h

theorem scanned_number (i : Nat) {p : List (Segment α)} : Scanned (number i p) ↔ Scanned p := by
  rw [Scanned, source_number, forget_number, Scanned]

theorem mem_number {u : List Char} {i j : Nat} {p : List (Segment α)}
    (h : Segment.piece u j ∈ number i p) : ∃ a, Segment.piece u a ∈ p := by
  induction p generalizing i with
  | nil => cases h
  | cons x p ih =>
    cases x with
    | plain c =>
      obtain ⟨a, ha⟩ := ih (by simpa [number] using h)
      exact ⟨a, List.mem_cons_of_mem _ ha⟩
    | piece v a =>
      rcases List.mem_cons.1 h with h | h
      · injection h with hu _
        exact ⟨a, by simp [hu]⟩
      · obtain ⟨b, hb⟩ := ih h
        exact ⟨b, List.mem_cons_of_mem _ hb⟩

end PagePress.Html.Shield
