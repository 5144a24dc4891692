import PagePress.Proofs.Inspect.Tags
import PagePress.Proofs.Reduce.Comments
import PagePress.Proofs.Reduce.Metas

/-!
Reading of a document. The reader knows what tags, attributes, comments, scripts and stylesheets
look like in any document; it is made without regard to how documents are written here. What it
reads off the text of a legible document is that document (`read_text`). Well-formed documents are
legible; so are documents whose values hold marks of tags, as long as no value holds the quotation
mark that would end it.
-/

namespace PagePress.Markup

open Text Html

/-! ### The reader -/

/-- Takes the value of an attribute: quoted, or up to white space or the end of the tag. -/
def value? (s : List Char) : Option (List Char × Cut s) :=
  (Reduce.quotedValue? s).orElse fun _ =>
    (Cut.spanSome? (fun c => !isBlank c && c != '>') s).map fun k => (k.text, k)

/-- Takes an attribute with or without a value. -/
def attr? (s : List Char) : Option (Attr × Cut s) :=
  (Cut.spanSome? isAttrChar s).bind fun name =>
    let left := Cut.span isBlank name.rest
    match Cut.char? (· == '=') left.rest with
    | none => some (⟨name.text, none⟩, name)
    | some equals =>
      let right := Cut.span isBlank equals.rest
      (value? right.rest).map fun (v, k) =>
        (⟨name.text, some v⟩, (((name.andThen left).andThen equals).andThen right).andThen k)

/-- Takes the attributes of a tag and the end of the tag. -/
def attrs? (s : List Char) : Option (List Attr × Cut s) :=
  let gap := Cut.span isGapChar s
  match Cut.char? (· == '>') gap.rest with
  | some close => some ([], gap.andThen close)
  | none =>
    match attr? gap.rest with
    | none => none
    | some (a, k) =>
      if h : k.text = [] then none
      else
        have : k.rest.length < s.length := by
          have h1 := congrArg List.length k.append_eq
          have h2 := congrArg List.length gap.append_eq
          have := List.length_pos_iff.mpr h
          simp only [List.length_append] at *
          omega
        (attrs? k.rest).map fun (as, k') => (a :: as, (gap.andThen k).andThen k')
termination_by s.length
decreasing_by assumption

def comment? (s : List Char) : Option (Tag Element × Cut s) := do
  let opening ← Cut.word? "<!--" s
  let body ← Cut.before? (fun t => (Cut.word? "-->" t).isSome) opening.rest
  let closing ← Cut.word? "-->" body.rest
  return (.comment body.text, (opening.andThen body).andThen closing)

def declaration? (s : List Char) : Option (Tag Element × Cut s) := do
  let opening ← Cut.word? "<!" s
  let body := Cut.span (· != '>') opening.rest
  let closing ← Cut.char? (· == '>') body.rest
  return (.declaration body.text, (opening.andThen body).andThen closing)

def closing? (s : List Char) : Option (Tag Element × Cut s) :=
  (Inspect.closeName? none s).map fun (name, k) => (.closing name, k)

/-- Takes an opening tag, or a whole script or stylesheet. -/
def opening? (s : List Char) : Option (Tag Element × Cut s) := do
  let mark ← Cut.char? (· == '<') s
  let name ← Inspect.elementName? mark.rest
  let (attrs, k) ← attrs? name.rest
  let opening := (mark.andThen name).andThen k
  let lowered := name.text.map Char.toLower
  if sealedNames.contains lowered then
    let el ← elementAfter? opening (closeTag? sameLetter lowered)
    return (.sealed ⟨name.text, attrs, el.body.text⟩, el.cut)
  else return (.opening name.text attrs, opening)

/-- Recognises a tag of any kind. -/
def anyTag? : Recognizer (Tag Element) := fun _ s =>
  (comment? s).orElse fun _ => (declaration? s).orElse fun _ => (closing? s).orElse fun _ => opening? s

/-- A segment of a text as a part of a document. -/
def segmentPart : Segment (Tag Element) → Part Element
  | .plain c => .text [c]
  | .piece _ t => .tag t

/-- The document that a text spells: its tags, with the text after each of them. -/
def read (html : List Char) : List (Span Element) := spans ((segments anyTag? html).map segmentPart)

/-! ### Legible documents -/

/-- An attribute whose value ends where it should. -/
structure Attr.Legible (a : Attr) : Prop where
  name : isAttrName a.name = true
  value : ∀ v, a.value = some v → '"' ∉ v

theorem Attr.WellFormed.legible {a : Attr} (h : a.WellFormed) : a.Legible :=
  ⟨h.name, fun v hv hm => absurd (h.value v hv _ hm) (by decide)⟩

/-- A tag that a reader can tell from its text. -/
def Tag.Legible : Tag Element → Prop
  | declaration s => s = "DOCTYPE html".toList
  | comment s => ∀ c ∈ s, isTextChar c = true ∧ c ≠ '-' ∧ c ≠ '[' ∧ c ≠ '\x00'
  | opening name attrs =>
    isName name = true ∧ (∀ m ∈ Shield.names, m.toList ≠ name) ∧ ∀ a ∈ attrs, a.Legible
  | closing name => isName name = true
  | sealed e => e.WellFormed

/-- A document that a reader can tell from its text. -/
def Legible (d : List (Span Element)) : Prop := ∀ s ∈ d, s.tag.Legible ∧ '<' ∉ s.after

theorem WellFormed.legible {d : List (Span Element)} (h : WellFormed d) : Legible d := by
  intro s hs
  refine ⟨?_, not_mem_of_textChars (h s hs).after⟩
  obtain ⟨t, a⟩ := s
  have ht := (h _ hs).tag
  cases t with
  | opening name attrs => exact ⟨ht.1, ht.2.1, fun a ha => (ht.2.2 a ha).legible⟩
  | _ => exact ht

/-! ### Attributes -/

theorem Attr.Legible.spell {a : Attr} (h : a.Legible) : a.spell.WellFormed := spell_wellFormed h.name h.value

/-- A value without quotes is taken up to white space or the end of the tag. -/
theorem unquoted_gives {v w s : List Char} (hne : v ≠ []) (hv : ∀ c ∈ v, isBlank c = false ∧ c ∉ ['>', '"', '\''])
    (hw : ∀ c x, w = c :: x → isBlank c = true ∨ c = '>') (hs : s = v ++ w) :
    Cut.Gives (Cut.spanSome? (fun c => !isBlank c && c != '>') s) v w := by
  obtain ⟨c, u, rfl⟩ := List.exists_cons_of_ne_nil hne
  refine Cut.spanSome?_gives hs (fun d hd => ?_) fun d x hx => ?_
  · have hd := hv d hd
    rw [hd.1, Bool.not_false, Bool.true_and, bne_iff_ne]
    exact fun he => hd.2 (by simp [he])
  · rcases hw d x hx with hd | rfl
    · simp [hd]
    · decide

theorem value?_unquoted {v w s : List Char} (hne : v ≠ []) (hv : ∀ c ∈ v, isBlank c = false ∧ c ∉ ['>', '"', '\''])
    (hw : ∃ c x, w = c :: x ∧ (isBlank c = true ∨ c = '>')) (hs : s = v ++ w) :
    ∃ k : Cut s, value? s = some (v, k) ∧ k.text = v ∧ k.rest = w := by
  obtain ⟨e, x, rfl, he⟩ := hw
  obtain ⟨k, hk, ht, hr⟩ := unquoted_gives hne hv (fun _ _ hx => (List.cons.inj hx).1 ▸ he) hs
  obtain ⟨c, u, rfl⟩ := List.exists_cons_of_ne_nil hne
  have hc := (hv c (by simp)).2
  simp only [List.mem_cons, List.not_mem_nil, or_false, not_or] at hc
  have hquoted : Reduce.quotedValue? s = none := by
    rw [hs]
    simp [Reduce.quotedValue?, Reduce.valueBetween?, Cut.char?, hc]
  refine ⟨k, ?_, ht, hr⟩
  rw [value?, hquoted, hk, Option.orElse_none, Option.map_some, ht]

theorem value?_quoted {q : Char} (hq : q = '"' ∨ q = '\'') {v w s : List Char} (hv : q ∉ v)
    (hs : s = q :: (v ++ q :: w)) :
    ∃ k : Cut s, value? s = some (v, k) ∧ k.text = q :: (v ++ [q]) ∧ k.rest = w := by
  obtain ⟨k, hk, ht, hr⟩ := quotedValue?_gives hq hv hs
  exact ⟨k, by rw [value?, hk, Option.orElse_some], ht, hr⟩

/-- An attribute with a value is taken, whatever white space stands around its sign of equality. -/
theorem attr?_value {n l r x v : List Char} (hne : n ≠ []) (hn : ∀ c ∈ n, isAttrChar c = true)
    (hl : ∀ c ∈ l, isBlank c = true) (hr : ∀ c ∈ r, isBlank c = true) {s w : List Char}
    (hs : s = n ++ (l ++ '=' :: (r ++ (x ++ w)))) (hx : ∀ c y, x ++ w = c :: y → isBlank c = false)
    (hvalue : ∀ {t : List Char}, t = x ++ w → ∃ k : Cut t, value? t = some (v, k) ∧ k.text = x ∧ k.rest = w) :
    ∃ k : Cut s, attr? s = some (⟨n, some v⟩, k) ∧ k.text = n ++ (l ++ '=' :: (r ++ x)) ∧ k.rest = w := by
  obtain ⟨c, m, rfl⟩ := List.exists_cons_of_ne_nil hne
  have hequals : isBlank '=' = false := by decide
  obtain ⟨k1, h1, t1, r1⟩ := Cut.spanSome?_gives hs hn (isAttrChar_of_blanks hl)
  obtain ⟨l2, d2⟩ := Cut.span_gives_cons r1 hl hequals
  obtain ⟨k2, h2, t2, r2⟩ := Cut.char?_gives (p := (· == '=')) d2 (by decide)
  obtain ⟨l3, d3⟩ := Cut.span_gives r2 hr hx
  obtain ⟨k3, h3, t3, r3⟩ := hvalue d3
  refine ⟨(((k1.andThen (Cut.span isBlank k1.rest)).andThen k2).andThen (Cut.span isBlank k2.rest)).andThen
    k3, ?_, ?_, r3⟩
  · simp only [attr?, h1, Option.bind_some, h2, h3, Option.map_some, t1]
  · show k1.text ++ (Cut.span isBlank k1.rest).text ++ k2.text ++ (Cut.span isBlank k2.rest).text ++ k3.text = _
    rw [l2, l3, t1, t2, t3]
    simp

/-- An attribute is taken as it is spelt, if what follows is told from its name and from its value. -/
theorem attr?_of_stop {a : SpelledAttr} (ha : a.WellFormed) {s w : List Char} (hs : s = a.body ++ w)
    (hstop : ∀ c v, w = c :: v → isAttrChar c = false) (hsign : (w.dropWhile isBlank).head? ≠ some '=')
    (hend : ∀ l r v, a.spelling = .unquoted l r v → ∃ c x, w = c :: x ∧ (isBlank c = true ∨ c = '>')) :
    ∃ k : Cut s, attr? s = some (a.attr, k) ∧ k.text = a.body ∧ k.rest = w := by
  obtain ⟨before, n, spelling⟩ := a
  have hspelling := ha.spelling
  cases spelling with
  | bare =>
    obtain ⟨c, m, rfl⟩ := List.exists_cons_of_ne_nil ha.name_ne
    obtain ⟨k, hk, ht, hr⟩ := Cut.spanSome?_gives (hs.trans (by simp [SpelledAttr.body, Spelling.text]))
      ha.name hstop
    have hnone : Cut.char? (· == '=') (Cut.span isBlank k.rest).rest = none :=
      Cut.char?_eq_none (by rw [Cut.span_rest, hr]; exact hsign)
    refine ⟨k, ?_, ht.trans (by simp [SpelledAttr.body, Spelling.text]), hr⟩
    simp only [attr?, hk, Option.bind_some, hnone, ht]
    rfl
  | unquoted left right v =>
    obtain ⟨hleft, hright, hne, hv⟩ := hspelling
    refine attr?_value (x := v) ha.name_ne ha.name hleft hright
      (hs.trans (by simp [SpelledAttr.body, Spelling.text])) ?_ (value?_unquoted hne hv (hend left right v rfl))
    obtain ⟨c, u, rfl⟩ := List.exists_cons_of_ne_nil hne
    exact not_blank_head (hv c (by simp)).1 _
  | quoted mark left right v =>
    obtain ⟨hleft, hright, hmark, hv⟩ := hspelling
    have hblank : isBlank mark = false := by rcases hmark with rfl | rfl <;> decide
    exact attr?_value (x := mark :: (v ++ [mark])) ha.name_ne ha.name hleft hright
      (hs.trans (by simp [SpelledAttr.body, Spelling.text])) (not_blank_head hblank _)
      fun ht => value?_quoted hmark hv (ht.trans (by simp))

theorem attr?_gives {a : SpelledAttr} (ha : a.WellFormed) {s w : List Char} (hs : s = a.body ++ w)
    (hw : EndsAttr w) : ∃ k : Cut s, attr? s = some (a.attr, k) ∧ k.text = a.body ∧ k.rest = w := by
  refine attr?_of_stop ha hs hw.not_attrChar ?_ fun _ _ _ _ => hw.head
  obtain ⟨c, v, hdrop, hc⟩ := hw.dropWhile_eq
  rw [hdrop, List.head?_cons, ne_eq, Option.some.injEq]
  rintro rfl
  simp at hc

/-- The end of a tag is taken with what stands before it. -/
theorem attrs?_nil {s u v : List Char} (hu : ∀ c ∈ u, isGapChar c = true) (hs : s = u ++ '>' :: v) :
    ∃ k : Cut s, attrs? s = some ([], k) ∧ k.text = u ++ ['>'] ∧ k.rest = v := by
  obtain ⟨htext, hrest⟩ := Cut.span_gives_cons hs hu (by decide)
  obtain ⟨k, hk, ht, hr⟩ := Cut.char?_gives (p := (· == '>')) hrest (by decide)
  refine ⟨(Cut.span isGapChar s).andThen k, ?_, ?_, hr⟩
  · rw [attrs?, hk]
  · rw [Cut.andThen_text, ht, htext]

/-- An attribute and the white space before it are taken first, if the attribute is taken by itself. -/
theorem attrs?_cons_of_attr {a : SpelledAttr} (ha : a.WellFormed) {s w : List Char} (hs : s = a.text ++ w)
    (hattr : ∀ {t : List Char}, t = a.body ++ w →
      ∃ k : Cut t, attr? t = some (a.attr, k) ∧ k.text = a.body ∧ k.rest = w) :
    ∃ k : Cut s, k.text = a.text ∧ k.rest = w ∧
      attrs? s = (attrs? k.rest).map fun (as, k') => (a.attr :: as, k.andThen k') := by
  have hgap : ∀ c ∈ a.before, isGapChar c = true := fun c hc => by rw [isGapChar, ha.before c hc, Bool.true_or]
  obtain ⟨c, n, hn⟩ := List.exists_cons_of_ne_nil ha.name_ne
  have hc := ha.name c (by simp [hn])
  have hcut : s = a.before ++ c :: (n ++ (a.spelling.text ++ w)) := by
    rw [hs]
    simp [SpelledAttr.text, SpelledAttr.body, hn]
  obtain ⟨htext, hrest⟩ := Cut.span_gives_cons hcut hgap (not_gap_of_isAttrChar hc)
  have hnone : Cut.char? (· == '>') (Cut.span isGapChar s).rest = none := by
    rw [hrest]
    exact Cut.char?_neg (p := (· == '>')) (beq_false_of_ne (ne_of_isAttrChar hc)) _
  obtain ⟨k, hk, ht, hr⟩ := hattr (hrest.trans (by simp [SpelledAttr.body, hn]))
  have hne : ¬ k.text = [] := by
    rw [ht, SpelledAttr.body, hn]
    simp
  refine ⟨(Cut.span isGapChar s).andThen k, ?_, hr, ?_⟩
  · rw [Cut.andThen_text, htext, ht]
    rfl
  · rw [attrs?, hnone]
    simp only [hk, dif_neg hne]
    rfl

theorem attrs?_cons {a : SpelledAttr} (ha : a.WellFormed) {s w : List Char} (hs : s = a.text ++ w)
    (hw : EndsAttr w) : ∃ k : Cut s, k.text = a.text ∧ k.rest = w ∧
      attrs? s = (attrs? k.rest).map fun (as, k') => (a.attr :: as, k.andThen k') :=
  attrs?_cons_of_attr ha hs fun ht => attr?_gives ha ht hw

/-- The attributes of a tag are taken up to the end of the tag. -/
theorem attrs?_spelled {attrs : List SpelledAttr} (ha : ∀ a ∈ attrs, a.WellFormed) {s u v : List Char}
    (hu : ∀ c ∈ u, isGapChar c = true) (hw : EndsAttr (u ++ '>' :: v))
    (hs : s = attrs.flatMap SpelledAttr.text ++ (u ++ '>' :: v)) :
    ∃ k : Cut s, attrs? s = some (attrs.map SpelledAttr.attr, k) ∧
      k.text = attrs.flatMap SpelledAttr.text ++ (u ++ ['>']) ∧ k.rest = v := by
  induction attrs generalizing s with
  | nil => exact attrs?_nil hu hs
  | cons a attrs ih =>
    have hrest : ∀ x ∈ attrs, x.WellFormed := fun x hx => ha x (by simp [hx])
    obtain ⟨k, ht, hr, hk⟩ := attrs?_cons (ha a (by simp)) (s := s) (by rw [hs]; simp)
      (endsAttr_attrs hrest hw)
    obtain ⟨k', hk', ht', hr'⟩ := ih hrest hr
    refine ⟨k.andThen k', ?_, ?_, hr'⟩
    · rw [hk, hk']
      rfl
    · rw [Cut.andThen_text, ht, ht']
      simp

/-- The attributes of a legible tag are taken up to the end of the tag. -/
theorem attrs?_gives {attrs : List Attr} (ha : ∀ a ∈ attrs, a.Legible) {s v : List Char}
    (hs : s = attrs.flatMap Attr.text ++ '>' :: v) :
    ∃ k : Cut s, attrs? s = some (attrs, k) ∧ k.text = attrs.flatMap Attr.text ++ ['>'] ∧ k.rest = v := by
  have hspell : ∀ a ∈ attrs.map Attr.spell, a.WellFormed := by
    simp only [List.mem_map]
    rintro _ ⟨a, hm, rfl⟩
    exact (ha a hm).spell
  have hmap : (attrs.map Attr.spell).map SpelledAttr.attr = attrs := by
    simp [Function.comp_def]
  obtain ⟨k, hk, ht, hr⟩ := attrs?_spelled hspell (u := []) (by simp) (.mark v)
    (hs.trans (by rw [flatMap_text_spell]; rfl))
  rw [hmap] at hk
  rw [flatMap_text_spell] at ht
  exact ⟨k, hk, ht, hr⟩

/-! ### Tags -/

theorem comment?_of_first {c : Char} (hc : c ≠ '!') (s : List Char) : comment? ('<' :: c :: s) = none := by
  have : ('!' == c) = false := by simpa using hc.symm
  simp [comment?, Cut.word?, Cut.wordBy?, this]

theorem declaration?_of_first {c : Char} (hc : c ≠ '!') (s : List Char) :
    declaration? ('<' :: c :: s) = none := by
  have : ('!' == c) = false := by simpa using hc.symm
  simp [declaration?, Cut.word?, Cut.wordBy?, this]

theorem closing?_of_first {c : Char} (hc : c ≠ '/') (s : List Char) : closing? ('<' :: c :: s) = none := by
  have : ('/' == c) = false := by simpa using hc.symm
  simp [closing?, Inspect.closeName?, Cut.word?, Cut.wordBy?, this]

theorem contextFree_anyTag : ContextFree anyTag? := fun _ _ => rfl

theorem atMark_anyTag : AtMark anyTag? := by
  intro c s hc
  have h1 : ('<' == c) = false := by simpa using hc.symm
  have h2 : (c == '<') = false := by simpa using hc
  simp [anyTag?, comment?, declaration?, closing?, opening?, Inspect.closeName?, Cut.word?, Cut.wordBy?,
    Cut.char?, h1, h2]

theorem takes_declaration : Takes anyTag? (Tag.text (ε := Element) (.declaration "DOCTYPE html".toList))
    (.declaration "DOCTYPE html".toList) := by
  refine takes_of_eq contextFree_anyTag (by simp [Tag.text]) fun v => ?_
  generalize hs : Tag.text (ε := Element) (.declaration "DOCTYPE html".toList) ++ v = s
  have hs : s = "<!".toList ++ ("DOCTYPE html".toList ++ '>' :: v) := hs.symm
  have hcomment : comment? s = none := by
    rw [hs]
    rfl
  obtain ⟨k1, h1, t1, r1⟩ := Cut.word?_gives hs
  have htake : k1.rest.takeWhile (· != '>') = "DOCTYPE html".toList := by
    rw [r1]
    rfl
  have hdrop : (Cut.span (· != '>') k1.rest).rest = '>' :: v := by
    rw [Cut.span_rest, r1]
    rfl
  obtain ⟨k2, h2, t2, -⟩ := Cut.char?_gives (p := (· == '>')) hdrop (by decide)
  have hdeclaration : declaration? s = some (.declaration "DOCTYPE html".toList,
      (k1.andThen (Cut.span (· != '>') k1.rest)).andThen k2) := by
    simp only [declaration?, h1, h2, Option.bind_eq_bind, Option.bind_some, Cut.span_text, htake]
    rfl
  refine ⟨(k1.andThen (Cut.span (· != '>') k1.rest)).andThen k2, ?_, ?_⟩
  · simp only [anyTag?, hcomment, hdeclaration]
    rfl
  · show k1.text ++ k1.rest.takeWhile (· != '>') ++ k2.text = _
    rw [t1, htake, t2]
    rfl

theorem takes_comment {s : List Char}
    (hs : ∀ c ∈ s, isTextChar c = true ∧ c ≠ '-' ∧ c ≠ '[' ∧ c ≠ '\x00') :
    Takes anyTag? (Tag.text (ε := Element) (.comment s)) (.comment s) := by
  refine takes_of_eq contextFree_anyTag (by simp [Tag.text]) fun v => ?_
  obtain ⟨k1, h1, -, k2, h2, t2, k3, h3, ht⟩ :=
    comment_gives (t := Tag.text (ε := Element) (.comment s) ++ v) (v := v) hs (by simp [Tag.text])
  refine ⟨(k1.andThen k2).andThen k3, ?_, ht⟩
  simp only [anyTag?, comment?, h1, h2, h3, t2, Option.bind_eq_bind, Option.bind_some]
  rfl

theorem takes_closing {n : List Char} (hn : isName n = true) :
    Takes anyTag? (closingText n) (.closing n) := by
  refine takes_of_eq contextFree_anyTag (by simp [closingText]) fun v => ?_
  obtain ⟨k, hk, ht⟩ := closeName?_gives hn v
  have h1 : comment? (closingText n ++ v) = none := comment?_of_first (by decide) _
  have h2 : declaration? (closingText n ++ v) = none := declaration?_of_first (by decide) _
  have h3 : closing? (closingText n ++ v) = some (.closing n, k) := by
    rw [closing?, hk]
    rfl
  refine ⟨k, ?_, ht⟩
  simp only [anyTag?, h1, h2, h3]
  rfl

/-- What begins with a name is read as an opening tag. -/
theorem anyTag?_openingText {n : List Char} (hn : isName n = true) (attrs : List Attr) (v : List Char) :
    anyTag? none (openingText n attrs ++ v) = opening? (openingText n attrs ++ v) := by
  obtain ⟨c, w, rfl, hc⟩ := exists_cons_of_isName hn
  have hne : c ≠ '!' ∧ c ≠ '/' := by
    constructor <;> (rintro rfl; exact absurd hc (by decide))
  have h1 : comment? (openingText (c :: w) attrs ++ v) = none := comment?_of_first hne.1 _
  have h2 : declaration? (openingText (c :: w) attrs ++ v) = none := declaration?_of_first hne.1 _
  have h3 : closing? (openingText (c :: w) attrs ++ v) = none := closing?_of_first hne.2 _
  simp only [anyTag?, h1, h2, h3]
  rfl

/-- An opening tag is read with its name and its attributes. -/
theorem tag_gives {n : List Char} (hn : isName n = true) {attrs : List Attr}
    (ha : ∀ a ∈ attrs, a.Legible) {s v : List Char} (hs : s = openingText n attrs ++ v) :
    ∃ k1, Cut.char? (· == '<') s = some k1 ∧ ∃ k2, Inspect.elementName? k1.rest = some k2 ∧ k2.text = n ∧
      ∃ k3, attrs? k2.rest = some (attrs, k3) ∧
        ((k1.andThen k2).andThen k3).text = openingText n attrs ∧ k3.rest = v := by
  obtain ⟨c, w, hcw, hc⟩ := exists_nameEnd attrs v
  have ht : s = '<' :: (n ++ c :: w) := by simp [hs, openingText, ← hcw]
  obtain ⟨k1, h1, t1, r1⟩ := Cut.char?_gives (p := (· == '<')) ht (by decide)
  obtain ⟨k2, h2, t2, r2⟩ := Inspect.elementName?_gives (isName_inspect hn).1 r1
    (isName_inspect hn).2 (endsName_of_isNameEnd hc)
  obtain ⟨k3, h3, t3, r3⟩ := attrs?_gives ha (r2.trans hcw.symm)
  refine ⟨k1, h1, k2, h2, t2, k3, h3, ?_, r3⟩
  show k1.text ++ k2.text ++ k3.text = _
  rw [t1, t2, t3]
  simp [openingText]

theorem takes_opening {n : List Char} (hn : isName n = true) (hne : ∀ m ∈ Shield.names, m.toList ≠ n)
    {attrs : List Attr} (ha : ∀ a ∈ attrs, a.Legible) :
    Takes anyTag? (openingText n attrs) (.opening n attrs) := by
  refine takes_of_eq contextFree_anyTag (by simp [openingText]) fun v => ?_
  obtain ⟨k1, h1, k2, h2, t2, k3, h3, ht, -⟩ := tag_gives hn ha (v := v) rfl
  have hsealed : sealedNames.contains n = false := by
    rw [List.contains_eq_mem, decide_eq_false_iff_not]
    intro hm
    simp only [sealedNames, List.mem_cons, List.not_mem_nil, or_false] at hm
    rcases hm with hm | hm
    · exact hne "script" (by decide) hm.symm
    · exact hne "style" (by decide) hm.symm
  refine ⟨(k1.andThen k2).andThen k3, ?_, ht⟩
  rw [anyTag?_openingText hn]
  simp only [opening?, h1, h2, h3, t2, map_toLower_of_isName hn, hsealed, Option.bind_eq_bind,
    Option.bind_some, Bool.false_eq_true, if_false]
  rfl

theorem takes_sealed {e : Element} (he : e.WellFormed) : Takes anyTag? (Written.text e) (.sealed e) := by
  refine takes_of_eq contextFree_anyTag e.text_ne_nil fun v => ?_
  generalize hs : Written.text e ++ v = s
  rw [Element.text_append] at hs
  obtain ⟨k1, h1, k2, h2, t2, k3, h3, ht, hr⟩ := tag_gives he.isName
    (fun a ha => (he.attrs a ha).legible) hs.symm
  have hsealed : sealedNames.contains e.name = true := by simpa using he.name
  obtain ⟨el, hel, hp⟩ := elementAfter?_gives (o := (k1.andThen k2).andThen k3)
    (f := closeTag? sameLetter e.name) hr he.content (fun c t hc => closeTag?_of_ne_mark _ _ hc t)
    fun t htt => closeTag?_gives (fun c hc => by
      rw [sameLetter_of_isNameChar (all_of_isName he.isName c hc)]
      exact beq_self_eq_true c) htt
  refine ⟨el.cut, ?_, ?_⟩
  · have htag : anyTag? none s = opening? s := hs ▸ anyTag?_openingText he.isName e.attrs _
    rw [htag]
    simp only [opening?, h1, h2, h3, t2, map_toLower_of_isName he.isName, hsealed, hel, hp.body,
      Option.bind_eq_bind, Option.bind_some, if_true]
    rfl
  · rw [hp.cut_text, ht]
    rfl

/-! ### Documents -/

variable {d : List (Span Element)}

theorem lead_chars (s : List Char) (ps : List (Part Element)) :
    lead (s.map (fun c => .text [c]) ++ ps) = s ++ lead ps := by
  induction s with
  | nil => rfl
  | cons c s ih => simp [ih]

theorem spans_chars (s : List Char) (ps : List (Part Element)) :
    spans (s.map (fun c => .text [c]) ++ ps) = spans ps := by
  induction s with
  | nil => rfl
  | cons c s ih => exact ih

/-- A legible document can be read off its text. -/
theorem read_text (hd : Legible d) : read (text d) = d := by
  have hread : ReadBy anyTag? some d := by
    refine ⟨contextFree_anyTag, atMark_anyTag, fun s hs => ?_, fun s hs => (hd s hs).2⟩
    obtain ⟨t, a⟩ := s
    have ht := (hd _ hs).1
    cases t with
    | declaration t =>
      obtain rfl := ht
      exact takes_declaration
    | comment t => exact takes_comment ht
    | opening n attrs => exact takes_opening ht.1 ht.2.1 ht.2.2
    | closing n => exact takes_closing ht
    | sealed e => exact takes_sealed ht
  have hsegments := hread.segments_text []
  rw [List.append_nil, segments_nil, List.append_nil] at hsegments
  rw [read, hsegments]
  clear hread hsegments hd
  have hparts : ∀ d : List (Span Element), (d.flatMap fun s =>
      tagSegments s.tag.text (some s.tag) ++ s.after.map .plain).map segmentPart =
        d.flatMap fun s => .tag s.tag :: s.after.map fun c => .text [c] := by
    intro d
    simp [List.map_flatMap, tagSegments, segmentPart, Function.comp_def]
  rw [hparts]
  induction d with
  | nil => rfl
  | cons s d ih =>
    have hlead : ∀ d : List (Span Element),
        lead (d.flatMap fun s => Part.tag s.tag :: s.after.map fun c => .text [c]) = [] := by
      intro d
      cases d <;> rfl
    rw [List.flatMap_cons, List.cons_append, spans_tag, lead_chars, spans_chars, hlead, ih,
      List.append_nil]

/-- A text before the first tag is passed over. -/
theorem read_append {s : List Char} (hs : '<' ∉ s) (t : List Char) : read (s ++ t) = read t := by
  rw [read, passes_text contextFree_anyTag atMark_anyTag hs t, List.map_append]
  have hchars : (s.map Segment.plain).map segmentPart = s.map fun c => .text [c] := by
    simp [segmentPart, Function.comp_def]
  rw [hchars, spans_chars]
  rfl

def Part.Legible : Part Element → Prop
  | text s => '<' ∉ s
  | tag t => t.Legible

theorem not_mem_lead {ps : List (Part Element)} (h : ∀ p ∈ ps, p.Legible) : '<' ∉ lead ps := by
  induction ps with
  | nil => simp [lead]
  | cons p ps ih =>
    cases p with
    | text s =>
      have hs : '<' ∉ s := h (.text s) (by simp)
      simpa [hs] using ih fun p hp => h p (by simp [hp])
    | tag t => simp

/-- Legible parts can be read off their text. -/
theorem read_parts {ps : List (Part Element)} (h : ∀ p ∈ ps, p.Legible) :
    read (ps.flatMap Part.chars) = spans ps := by
  have hlegible : Legible (spans ps) := fun s hs => by
    obtain ⟨htag, hafter⟩ := mem_spans hs
    refine ⟨h _ htag, fun hc => ?_⟩
    obtain ⟨t, ht, hc⟩ := hafter _ hc
    exact h _ ht hc
  rw [← lead_append_text_spans, read_append (not_mem_lead h), read_text hlegible]

end PagePress.Markup
