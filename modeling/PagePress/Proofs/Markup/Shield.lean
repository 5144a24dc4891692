import PagePress.Proofs.Markup.Edit
import PagePress.Proofs.Markup.Reads

/-!
Changes outside the sealed elements of a document. Masking puts a numbered slot in the place of
each sealed element, and restoring fills the slots again. A change that treats slots as it treats
all other tags can therefore be described on the document itself (`Rewrites.around`).
-/

namespace PagePress.Markup

open Text Html

/-! ### Sealed elements and their slots -/

/-- Elements that shielding takes as a whole. -/
class Sealed (ε : Type) extends Written ε where
  takes : ∀ e : ε, WellFormed e → Takes Shield.shielded? (text e) ()

/-- The place of an element that was set aside, in a list of all that were. -/
structure Slot (ε : Type) (l : List (List Char)) where
  index : Nat
  element : ε

instance {ε : Type} [Written ε] {l : List (List Char)} : Written (Slot ε l) where
  text s := Shield.placeholder s.index
  WellFormed s := l[s.index]? = some (Written.text s.element)

variable {ε : Type}

/-- The number of the next slot after a tag. -/
def Tag.next (i : Nat) : Tag ε → Nat
  | sealed _ => i + 1
  | _ => i

/-- A document with slots for its sealed elements, numbered from `i`. -/
def number {l : List (List Char)} (i : Nat) : List (Span ε) → List (Span (Slot ε l))
  | [] => []
  | s :: d => ⟨s.tag.map (.mk i), s.after⟩ :: number (s.tag.next i) d

@[simp] theorem mapSealed_number {l : List (List Char)} (i : Nat) (d : List (Span ε)) :
    mapSealed Slot.element (number (l := l) i d) = d := by
  induction d generalizing i with
  | nil => rfl
  | cons s d ih =>
    obtain ⟨t, a⟩ := s
    have ht : (t.map (Slot.mk (l := l) i)).map Slot.element = t := by cases t <;> rfl
    show ⟨_, a⟩ :: mapSealed _ (number (t.next i) d) = _
    rw [ht, ih]

variable [Written ε]

/-- The texts of the sealed elements of a document. -/
def sealedTexts (d : List (Span ε)) : List (List Char) :=
  d.filterMap fun s =>
    match s.tag with
    | .sealed e => some (Written.text e)
    | _ => none

/-- Every slot of a numbered document finds its element. -/
theorem WellFormed.number {l : List (List Char)} {d : List (Span ε)} (hd : WellFormed d)
    {i : Nat} {s : List (List Char)} (h : l.drop i = sealedTexts d ++ s) :
    WellFormed (number (l := l) i d) := by
  induction d generalizing i with
  | nil => simp [Markup.number, WellFormed]
  | cons x d ih =>
    obtain ⟨t, a⟩ := x
    have hx := hd _ (List.mem_cons_self ..)
    have hrest : WellFormed d := fun y hy => hd y (List.mem_cons_of_mem _ hy)
    cases t with
    | sealed e =>
      have h' : l.drop i = Written.text e :: (sealedTexts d ++ s) := h
      have hget : l[i]? = some (Written.text e) := by
        have := congrArg List.head? h'
        simpa [List.head?_drop] using this
      have hdrop : l.drop (i + 1) = sealedTexts d ++ s := by
        rw [← List.drop_drop, h']
        rfl
      intro y hy
      rcases List.mem_cons.1 hy with rfl | hy
      · exact ⟨hget, hx.after⟩
      · exact ih hrest hdrop y hy
    | _ =>
      intro y hy
      rcases List.mem_cons.1 hy with rfl | hy
      · exact ⟨hx.tag, hx.after⟩
      · exact ih hrest h y hy

/-! ### Masking -/

/-- What the scan for shielded elements takes: every sealed element. -/
def sealedOnly : Tag ε → Option Unit
  | .sealed _ => some ()
  | _ => none

theorem opensWith_shielded : OpensWith Shield.names Shield.shielded? where
  contextFree _ _ := rfl
  names := by decide
  none s h := by
    have : ∀ m ∈ Shield.names, elementRepeating? m s = none := by
      intro m hm
      simp [elementRepeating?, h m hm]
    simp [Shield.shielded?, List.findSome?_eq_none_iff.2 this]

/-- A script or a stylesheet is the first shielded element of its own text. -/
theorem takes_shielded {e : Element} (he : e.WellFormed) :
    Takes Shield.shielded? (Written.text e) () := by
  refine takes_of_eq opensWith_shielded.contextFree e.text_ne_nil fun v => ?_
  have hother : ∀ m : String, isName m.toList = true → m.toList ≠ e.name →
      elementRepeating? m (Written.text e ++ v) = none := by
    intro m hm hne
    have hopen := openTag?_of_ne hm he.isName hne e.attrs
      (e.content ++ (closingText e.name ++ v))
    rw [Element.text_append, elementRepeating?, hopen]
    rfl
  have hpre := hother "pre" (by decide)
  have harea := hother "textarea" (by decide)
  have hscript := hother "script" (by decide)
  have hmem := he.name
  simp only [sealedNames, List.mem_cons, List.not_mem_nil, or_false] at hmem
  rcases hmem with hn | hn
  · obtain ⟨el, hel, hp⟩ := elementRepeating?_gives he (m := "script") hn.symm (v := v) rfl
    refine ⟨el.cut, ?_, hp.cut_text⟩
    simp only [Shield.shielded?, Shield.names, List.findSome?_cons, hpre (by rw [hn]; decide),
      harea (by rw [hn]; decide), hel, Option.map_some]
  · obtain ⟨el, hel, hp⟩ := elementRepeating?_gives he (m := "style") hn.symm (v := v) rfl
    refine ⟨el.cut, ?_, hp.cut_text⟩
    simp only [Shield.shielded?, Shield.names, List.findSome?_cons, hpre (by rw [hn]; decide),
      harea (by rw [hn]; decide), hscript (by rw [hn]; decide), hel, Option.map_some]

instance : Sealed Element where
  takes _ := takes_shielded

theorem readBy_shielded {ε : Type} [Sealed ε] {d : List (Span ε)} (hd : WellFormed d) :
    ReadBy Shield.shielded? sealedOnly d where
  contextFree := opensWith_shielded.contextFree
  atMark := opensWith_shielded.atMark
  texts s hs := not_mem_of_textChars (hd s hs).after
  tags s hs := by
    obtain ⟨t, a⟩ := s
    have ht := (hd _ hs).tag
    cases t with
    | declaration t =>
      obtain rfl := ht
      exact opensWith_shielded.passes_declaration (by decide)
    | comment t => exact opensWith_shielded.passes_comment fun c hc => (ht c hc).1
    | opening n a => exact opensWith_shielded.passes_opening ht.1 ht.2.1 ht.2.2
    | closing n => exact opensWith_shielded.passes_closing ht
    | sealed e => exact Sealed.takes e ht

theorem maskFrom_plain (i : Nat) (u : List Char) (segs : List (Segment Unit)) :
    Shield.maskFrom i (u.map .plain ++ segs) = u ++ Shield.maskFrom i segs := by
  induction u with
  | nil => rfl
  | cons c u ih => exact congrArg (c :: ·) ih

/-- The number of slots before and in a document. -/
def slotsFrom (i : Nat) (d : List (Span ε)) : Nat := d.foldl (fun i s => s.tag.next i) i

/-- Masking a document numbers it. -/
theorem maskFrom_segments {l : List (List Char)} (i : Nat) (d : List (Span ε))
    (segs : List (Segment Unit)) :
    Shield.maskFrom i
        (d.flatMap (fun s => tagSegments s.tag.text (sealedOnly s.tag) ++ s.after.map .plain) ++ segs) =
      text (number (l := l) i d) ++ Shield.maskFrom (slotsFrom i d) segs := by
  induction d generalizing i with
  | nil => rfl
  | cons s d ih =>
    obtain ⟨t, a⟩ := s
    have htag : ∀ segs, Shield.maskFrom i (tagSegments t.text (sealedOnly t) ++ segs) =
        (t.map (Slot.mk (l := l) i)).text ++ Shield.maskFrom (t.next i) segs := by
      intro segs
      cases t with
      | sealed e => rfl
      | _ => exact maskFrom_plain i _ segs
    simp only [List.flatMap_cons, List.append_assoc]
    rw [htag, maskFrom_plain, ih]
    simp [Markup.number, slotsFrom]

theorem saved_plain (u : List Char) (segs : List (Segment Unit)) :
    Shield.saved (u.map .plain ++ segs) = Shield.saved segs := by
  induction u with
  | nil => rfl
  | cons c u ih => exact ih

/-- What masking sets aside are the sealed elements. -/
theorem saved_segments (d : List (Span ε)) (segs : List (Segment Unit)) :
    Shield.saved
        (d.flatMap (fun s => tagSegments s.tag.text (sealedOnly s.tag) ++ s.after.map .plain) ++ segs) =
      sealedTexts d ++ Shield.saved segs := by
  induction d with
  | nil => rfl
  | cons s d ih =>
    obtain ⟨t, a⟩ := s
    simp only [List.flatMap_cons, List.append_assoc]
    cases t with
    | sealed e => exact congrArg (Written.text e :: ·) ((saved_plain a _).trans ih)
    | _ => exact (saved_plain _ _).trans ((saved_plain a _).trans ih)

/-! ### Restoring -/

/-- What the scan for placeholders takes: every slot, with the text of its element. -/
def slotsOnly {l : List (List Char)} : Tag (Slot ε l) → Option (List Char)
  | .sealed s => some (Written.text s.element)
  | _ => none

theorem atMark_placeholder (es : Array (List Char)) : AtMark (Shield.placeholder? es) := by
  intro c s hc
  have : ('<' == c) = false := by simpa using hc.symm
  simp [Shield.placeholder?, Cut.word?, Cut.wordBy?, this]

/-- A tag is no placeholder if no NUL follows its `<`. -/
theorem passes_placeholder (es : Array (List Char)) {c : Char} {u : List Char} (hc : c ≠ '\x00')
    (hu : '<' ∉ c :: u) : Passes (Shield.placeholder? es) ('<' :: c :: u) := by
  refine passes_tag (fun _ _ => rfl) (atMark_placeholder es) (fun v => ?_) hu
  have : ('\x00' == c) = false := by simpa using hc.symm
  simp [Shield.placeholder?, Cut.word?, Cut.wordBy?, this]

/-- The digits of a placeholder are cut out between its marks, whatever else counts as a digit, NUL
apart. -/
theorem exists_placeholder_cut {p : Char → Bool} (hp : ∀ c, c.isDigit = true → p c = true)
    (hnul : p '\x00' = false) (i : Nat) (v : List Char) :
    ∃ (k₁ : Cut (Shield.placeholder i ++ v)) (k₂ : Cut k₁.rest) (k₃ : Cut k₂.rest),
      Cut.word? "<\x00" (Shield.placeholder i ++ v) = some k₁ ∧ Cut.spanSome? p k₁.rest = some k₂ ∧
        Cut.word? "\x00>" k₂.rest = some k₃ ∧ k₂.text = Nat.toDigits 10 i ∧
        ((k₁.andThen k₂).andThen k₃).text = Shield.placeholder i := by
  obtain ⟨d, ds, hds⟩ := List.exists_cons_of_ne_nil (Nat.toDigits_ne_nil (n := i) (b := 10))
  have hdigit : ∀ c ∈ d :: ds, p c = true := by
    rw [← hds]
    exact fun c hc => hp c (Nat.isDigit_of_mem_toDigits (by decide) (by decide) hc)
  obtain ⟨k₁, h₁, t₁, r₁⟩ := Cut.word?_gives (s := Shield.placeholder i ++ v) (w := "<\x00")
    (v := d :: ds ++ '\x00' :: '>' :: v) (by simp [Shield.placeholder, hds])
  obtain ⟨k₂, h₂, t₂, r₂⟩ := Cut.spanSome?_gives (p := p) r₁ hdigit fun c w hw => by
    injection hw with hc
    rw [← hc]
    exact hnul
  obtain ⟨k₃, h₃, t₃, -⟩ := Cut.word?_gives (s := k₂.rest) (w := "\x00>") (v := v) r₂
  refine ⟨k₁, k₂, k₃, h₁, h₂, h₃, by rw [t₂, hds], ?_⟩
  show k₁.text ++ k₂.text ++ k₃.text = _
  simp [t₁, t₂, t₃, Shield.placeholder, hds]

/-- A placeholder is recognised by its number. -/
theorem takes_placeholder {es : List (List Char)} {i : Nat} {e : List Char} (h : es[i]? = some e) :
    Takes (Shield.placeholder? es.toArray) (Shield.placeholder i) e := by
  refine takes_of_eq (fun _ _ => rfl) (by simp [Shield.placeholder]) fun v => ?_
  obtain ⟨k₁, k₂, k₃, h₁, h₂, h₃, hdigits, htext⟩ :=
    exists_placeholder_cut (p := Char.isDigit) (fun _ h => h) (by decide) i v
  have hvalue : k₂.text.foldl (fun n d => 10 * n + (d.toNat - 0x30)) 0 = i := by
    rw [hdigits]
    exact (Nat.ofDigitChars_eq_foldl (b := 10)).symm.trans Nat.ofDigitChars_ten_toDigits
  have he : es.toArray[k₂.text.foldl (fun n d => 10 * n + (d.toNat - 0x30)) 0]? = some e := by
    rw [hvalue]
    simpa using h
  refine ⟨(k₁.andThen k₂).andThen k₃, ?_, htext⟩
  simp only [Shield.placeholder?, h₁, h₂, h₃, he, Option.bind_eq_bind, Option.bind_some]
  rfl

theorem readBy_placeholder {l : List (List Char)} {d : List (Span (Slot ε l))}
    (hd : WellFormed d) : ReadBy (Shield.placeholder? l.toArray) slotsOnly d where
  contextFree _ _ := rfl
  atMark := atMark_placeholder _
  texts s hs := not_mem_of_textChars (hd s hs).after
  tags s hs := by
    obtain ⟨t, a⟩ := s
    have ht := (hd _ hs).tag
    cases t with
    | declaration t =>
      obtain rfl := ht
      exact passes_placeholder _ (c := '!') (u := "DOCTYPE html>".toList) (by decide) (by decide)
    | comment t =>
      have := not_mem_of_textChars fun c hc => (ht c hc).1
      exact passes_placeholder _ (c := '!') (u := '-' :: '-' :: t ++ ['-', '-', '>']) (by decide)
        (by simp [this])
    | opening n a =>
      obtain ⟨c, w, rfl, hc⟩ := exists_cons_of_isName ht.1
      have h1 := not_mem_of_textChars fun x hx =>
        (NameChar.of_isNameChar (all_of_isName ht.1 x hx)).isTextChar
      have h2 := not_mem_of_textChars (isTextChar_attrs ht.2.2)
      refine passes_placeholder _ (c := c) (u := w ++ a.flatMap Attr.text ++ ['>']) ?_ ?_
      · rintro rfl
        exact absurd hc (by decide)
      · simpa [h2] using h1
    | closing n =>
      have := not_mem_of_textChars fun x hx =>
        (NameChar.of_isNameChar (all_of_isName ht x hx)).isTextChar
      exact passes_placeholder _ (c := '/') (u := n ++ ['>']) (by decide) (by simp [this])
    | sealed e => exact takes_placeholder ht

/-- Restoring fills the slots of a document. -/
theorem restore_text {l : List (List Char)} {d : List (Span (Slot ε l))} (hd : WellFormed d)
    (w : List Char) :
    Shield.restore l (text d ++ w) =
      text (mapSealed Slot.element d) ++ Shield.restore l w := by
  rw [Shield.restore, (readBy_placeholder hd).replaceAll_text]
  congr 1
  induction d with
  | nil => rfl
  | cons s d ih =>
    obtain ⟨t, a⟩ := s
    have htag : (slotsOnly t).getD t.text = (t.map Slot.element).text := by cases t <;> rfl
    have ih := ih (wellFormed_cons.1 hd).2
    simp [htag, ih]

/-! ### Rewriting -/

/-- A change of texts that makes the document `e` of the document `d`, whatever follows it; where
nothing follows, nothing is added. -/
def Rewrites (change : List Char → List Char) (d e : List (Span ε)) : Prop :=
  ∀ v, ∃ w, change (text d ++ v) = text e ++ w ∧ (v = [] → w = [])

theorem Rewrites.apply {change : List Char → List Char} {d e : List (Span ε)}
    (h : Rewrites change d e) : change (text d) = text e := by
  obtain ⟨w, hw, hnil⟩ := h []
  simpa [hnil rfl] using hw

theorem Rewrites.comp {f g : List Char → List Char} {d e r : List (Span ε)} (hf : Rewrites f d e)
    (hg : Rewrites g e r) : Rewrites (fun s => g (f s)) d r := by
  intro v
  obtain ⟨w, hw, hnil⟩ := hf v
  obtain ⟨w', hw', hnil'⟩ := hg w
  refine ⟨w', ?_, fun h => hnil' (hnil h)⟩
  show g (f _) = _
  rw [hw, hw']

theorem Rewrites.of_readBy {r : Recognizer (List Char)} {g : Tag ε → Option (List Char)}
    {d e : List (Span ε)} (hr : ReadBy r g d)
    (he : d.flatMap (fun s => (g s.tag).getD s.tag.text ++ s.after) = text e) :
    Rewrites (replaceAll r) d e := by
  intro v
  refine ⟨replaceAll r v, by rw [hr.replaceAll_text, he], ?_⟩
  rintro rfl
  exact replaceAll_nil r

theorem nul_not_mem_attr {a : Attr} (h : a.WellFormed) (hn : ∀ v, a.value = some v → '\x00' ∉ v) :
    '\x00' ∉ a.text := by
  have hname : '\x00' ∉ a.name := fun hm => by
    rcases mem_name_of_isAttrName h.name _ hm with h | h <;> exact absurd h (by decide)
  rw [Attr.text]
  cases hv : a.value with
  | none => simp [hname]
  | some v => simp [hname, hn v hv]

theorem nul_not_mem_name {n : List Char} (h : isName n = true) : '\x00' ∉ n := fun hm =>
  absurd (all_of_isName h _ hm) (by decide)

theorem NulFree.not_mem_text {d : List (Span ε)} (hd : WellFormed d) (hn : NulFree d) :
    '\x00' ∉ text d := by
  induction d with
  | nil => simp
  | cons s d ih =>
    obtain ⟨t, a⟩ := s
    obtain ⟨hs, hd⟩ := wellFormed_cons.1 hd
    have ih := ih hd fun x hx => hn x (List.mem_cons_of_mem _ hx)
    obtain ⟨ht, ha⟩ := hn _ (List.mem_cons_self ..)
    have htag : '\x00' ∉ t.text := by
      cases t with
      | declaration t =>
        obtain rfl := hs.tag
        simp [Tag.text]
      | comment t =>
        have : '\x00' ∉ t := fun hm => (hs.tag _ hm).2.2.2 rfl
        simp [Tag.text, this]
      | opening n attrs =>
        have h1 := nul_not_mem_name hs.tag.1
        have h2 : '\x00' ∉ attrs.flatMap Attr.text := by
          intro hm
          obtain ⟨x, hx, hm⟩ := List.mem_flatMap.1 hm
          exact nul_not_mem_attr (hs.tag.2.2 x hx) (ht x hx) hm
        simp [Tag.text, openingText, h1, h2]
      | closing n => simp [Tag.text, closingText, nul_not_mem_name hs.tag]
      | sealed e => exact ht
    simp only [text_cons, List.mem_append, not_or]
    exact ⟨htag, ha, ih⟩

theorem dropNul_of_not_mem {s : List Char} (h : '\x00' ∉ s) : Shield.dropNul s = s := by
  rw [Shield.dropNul, List.filter_eq_self]
  intro c hc
  have : c ≠ '\x00' := by
    rintro rfl
    exact h hc
  simpa using this

theorem dropNul_append (s t : List Char) :
    Shield.dropNul (s ++ t) = Shield.dropNul s ++ Shield.dropNul t := List.filter_append ..

/-- A change made around the sealed elements is known from what it does to slots. -/
theorem Rewrites.around {ε : Type} [Sealed ε] {change : List Char → List Char} {d e : List (Span ε)}
    (hd : WellFormed d) (hn : NulFree d)
    (h : ∀ (l : List (List Char)) (d' : List (Span (Slot ε l))), WellFormed d' →
      mapSealed Slot.element d' = d →
      ∃ e', WellFormed e' ∧ mapSealed Slot.element e' = e ∧ Rewrites change d' e') :
    Rewrites (Shield.around change) d e := by
  intro v
  have hnul : Shield.dropNul (text d ++ v) = text d ++ Shield.dropNul v := by
    rw [dropNul_append, dropNul_of_not_mem (hn.not_mem_text hd)]
  have hparts := (readBy_shielded hd).segments_text (Shield.dropNul v)
  generalize hsegs : segments Shield.shielded? (Shield.dropNul v) = segs at hparts
  have hwf := hd.number (l := sealedTexts d ++ Shield.saved segs) (i := 0) (s := Shield.saved segs) rfl
  obtain ⟨e', he', hmap, hrew⟩ := h _ _ hwf (mapSealed_number 0 d)
  obtain ⟨w, hw, hnil⟩ := hrew (Shield.maskFrom (slotsFrom 0 d) segs)
  refine ⟨Shield.restore (sealedTexts d ++ Shield.saved segs) w, ?_, ?_⟩
  · rw [Shield.around, Shield.parts, hnul, hparts, saved_segments, maskFrom_segments, hw,
      restore_text he', hmap]
  · rintro rfl
    have hs : segs = [] := by
      rw [← hsegs]
      exact segments_nil
    have hw0 : w = [] := hnil (by rw [hs]; rfl)
    rw [hw0]
    exact replaceAll_nil _

end PagePress.Markup
