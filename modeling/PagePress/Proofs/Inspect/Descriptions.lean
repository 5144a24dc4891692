import PagePress.Proofs.Inspect.Items
import PagePress.Proofs.Inspect.Search

/-!
Images without a description and inputs without a label. The tags of a document are found one after
the other with their numbers, and a finding is reported for exactly those whose attributes, as they are
read, do not tell what the element is for (`accessibility_textAll`), as long as the searches are not led
astray by a tag that only mentions an attribute.
-/

namespace PagePress.Inspect

open Text Html
open Markup (readStartTag? Attr SpelledAttr Spelling StartTag isAttrChar isGapChar)

/-! ### The target of a label -/

/-- The target that is read at a place. -/
def targetAt? (before : Option Char) (s : List Char) : Option (List Char × Cut s) := do
  if !startsWord before then none
  else
    let word ← Cut.wordAnyCase? "for" s
    let left := Cut.span isBlank word.rest
    let equals ← Cut.char? (· == '=') left.rest
    let right := Cut.span isBlank equals.rest
    let isMark := fun c => c == '"' || c == '\''
    let opening ← Cut.char? isMark right.rest
    let id ← Cut.spanSome? (fun c => !isMark c) opening.rest
    let closing ← Cut.char? isMark id.rest
    return (id.text, ((((((word.andThen left).andThen equals).andThen right).andThen
      opening).andThen id).andThen closing))

theorem lastTarget?_cons (b : Option Char) {c : Char} (hc : c ≠ '>') (s : List Char) :
    lastTarget? b (c :: s) = match lastTarget? (some c) s with
      | some (id, k) => some (id, ⟨c :: k.text, k.rest, by simp [k.append_eq]⟩)
      | none => targetAt? b (c :: s) := (if_neg hc).trans rfl

section

variable {b : Option Char} {u v : List Char}

/-- What stands further behind is found first. -/
theorem lastTarget?_of_some (hu : '>' ∉ u) {id : List Char} {k : Cut v}
    (h : lastTarget? (u.getLast?.or b) v = some (id, k)) :
    ∃ k', lastTarget? b (u ++ v) = some (id, k') ∧ k'.text = u ++ k.text := by
  induction u generalizing b with
  | nil => exact ⟨k, h, rfl⟩
  | cons c u ih =>
    rw [List.mem_cons, not_or] at hu
    rw [getLast?_or_cons] at h
    obtain ⟨k', hk', htext⟩ := ih hu.2 h
    refine ⟨⟨c :: k'.text, k'.rest, by simp [k'.append_eq]⟩, ?_, congrArg (c :: ·) htext⟩
    show lastTarget? b (c :: (u ++ v)) = _
    rw [lastTarget?_cons b (Ne.symm hu.1), hk']

theorem targetAt?_of_assigns {s : List Char} (h : assigns isWord "for" b s = false) : targetAt? b s = none := by
  rw [assigns, Bool.and_eq_false_iff] at h
  unfold targetAt?
  split
  · rfl
  · rename_i hb
    rcases h with h | h
    · exact absurd (by simpa [startsWord] using h) hb
    · cases hk : Cut.wordAnyCase? "for" s with
      | none => rfl
      | some k =>
        rw [hk, Option.any_some] at h
        have hnone : Cut.char? (· == '=') (Cut.span isBlank k.rest).rest = none :=
          Cut.char?_eq_none (by simpa using h)
        simp only [hnone, Option.bind_eq_bind, Option.bind_some, Option.bind_none]

theorem lastTarget?_of_none (hu : '>' ∉ u) (hsilent : Silent (assigns isWord "for") b u v)
    (h : lastTarget? (u.getLast?.or b) v = none) : lastTarget? b (u ++ v) = none := by
  induction u generalizing b with
  | nil => exact h
  | cons c u ih =>
    rw [List.mem_cons, not_or] at hu
    rw [getLast?_or_cons] at h
    rw [List.cons_append, lastTarget?_cons b (Ne.symm hu.1), ih hu.2 hsilent.2 h]
    exact targetAt?_of_assigns hsilent.1

end

/-- A label's target is given in quotes, is not empty and holds no quotes. -/
def Quotable (a : SpelledAttr) : Prop :=
  isNamed "for" a.name = true → a.spelling = .bare ∨
    ∃ mark l r v, a.spelling = .quoted mark l r v ∧ v ≠ [] ∧ '"' ∉ v ∧ '\'' ∉ v

/-- A target in quotes is read at its name. -/
theorem targetAt?_quoted {a : SpelledAttr} (ha : a.WellFormed) (hnamed : isNamed "for" a.name = true)
    {mark : Char} {l r v : List Char} (hquoted : a.spelling = .quoted mark l r v) (hne : v ≠ []) (hdouble : '"' ∉ v)
    (hsingle : '\'' ∉ v) (w : List Char) {b : Option Char} (hb : b.any isWord = false) :
    ∃ k, targetAt? b (a.body ++ w) = some (v, k) ∧ k.text = a.body := by
  have hs := ha.spelling
  rw [hquoted] at hs
  obtain ⟨hl, hr, hmark, -⟩ := hs
  obtain ⟨c, u, rfl⟩ := List.exists_cons_of_ne_nil hne
  let isMark : Char → Bool := fun c => c == '"' || c == '\''
  have hopen : isMark mark = true := by rcases hmark with rfl | rfl <;> decide
  have hblank : isBlank mark = false := by rcases hmark with rfl | rfl <;> decide
  have hinner : ∀ d ∈ c :: u, (!isMark d) = true := by
    intro d hd
    have h1 : d ≠ '"' := fun he => hdouble (he ▸ hd)
    have h2 : d ≠ '\'' := fun he => hsingle (he ▸ hd)
    simp [isMark, h1, h2]
  have hbody : a.body ++ w = a.name ++ (l ++ '=' :: (r ++ mark :: (c :: u ++ mark :: w))) := by
    rw [SpelledAttr.body, hquoted]
    simp [Spelling.text]
  rw [hbody]
  obtain ⟨word, hword, tword, rword⟩ := wordAnyCase?_of_isNamed (by decide) hnamed
    (l ++ '=' :: (r ++ mark :: (c :: u ++ mark :: w)))
  obtain ⟨tleft, rleft⟩ := Cut.span_gives_cons rword hl (by decide)
  obtain ⟨equals, hequals, tequals, requals⟩ := Cut.char?_gives (p := (· == '=')) rleft rfl
  obtain ⟨tright, rright⟩ := Cut.span_gives_cons requals hr hblank
  obtain ⟨opening, hopening, topening, ropening⟩ := Cut.char?_gives (p := isMark) rright hopen
  obtain ⟨id, hid, tid, rid⟩ := Cut.spanSome?_gives (p := fun c => !isMark c) ropening hinner fun d y hd => by
    rw [← (List.cons.inj hd).1, hopen]
    rfl
  obtain ⟨closing, hclosing, tclosing, -⟩ := Cut.char?_gives (p := isMark) rid hopen
  refine ⟨((((((word.andThen (Cut.span isBlank word.rest)).andThen equals).andThen
    (Cut.span isBlank equals.rest)).andThen opening).andThen id).andThen closing), ?_, ?_⟩
  · simp only [targetAt?, startsWord, hb, hword, hequals, Bool.not_false, Bool.not_true, Bool.false_eq_true, if_false,
      Option.bind_eq_bind, Option.bind_some]
    show ((Cut.char? isMark (Cut.span isBlank equals.rest).rest).bind _) = _
    rw [hopening, Option.bind_some]
    show ((Cut.spanSome? (fun c => !isMark c) opening.rest).bind _) = _
    rw [hid, Option.bind_some]
    show ((Cut.char? isMark id.rest).bind _) = _
    rw [hclosing, Option.bind_some, tid]
    rfl
  · show word.text ++ (Cut.span isBlank word.rest).text ++ equals.text ++ (Cut.span isBlank equals.rest).text ++
      opening.text ++ id.text ++ closing.text = _
    rw [tword, tleft, tequals, tright, topening, tid, tclosing, SpelledAttr.body, hquoted]
    simp [Spelling.text]

/-- At its name an attribute is read as the target of its label. -/
theorem targetAt?_body {a : SpelledAttr} (ha : a.WellFormed) (hq : Quotable a)
    (hcalled : isTaken "for" a.name = true → isNamed "for" a.name = true) {w : List Char} (hw : Ends w)
    {b : Option Char} (hb : b.any isWord = false) :
    match (if isNamed "for" a.name then a.spelling.value else none) with
    | none => targetAt? b (a.body ++ w) = none
    | some id => ∃ k, targetAt? b (a.body ++ w) = some (id, k) ∧ k.text = a.body := by
  cases hnamed : isNamed "for" a.name with
  | false => exact targetAt?_of_assigns (assigns_body ha hw (by decide) hcalled (by simp [hnamed]))
  | true =>
    rcases hq hnamed with hbare | ⟨mark, l, r, v, hquoted, hne, hdouble, hsingle⟩
    · rw [hbare]
      exact targetAt?_of_assigns (assigns_body ha hw (by decide) hcalled fun _ => hbare)
    · rw [hquoted]
      exact targetAt?_quoted ha hnamed hquoted hne hdouble hsingle w hb

/-- The search for a target in a text finds the given one, and no other, within a first part of it. -/
def Targets (b : Option Char) (s u : List Char) : Option (List Char) → Prop
  | none => lastTarget? b s = none
  | some id => ∃ k, lastTarget? b s = some (id, k) ∧ k.text <+: u

theorem Targets.mono {b : Option Char} {s u u' : List Char} {o : Option (List Char)} (h : Targets b s u o)
    (hu : u <+: u') : Targets b s u' o := by
  cases o with
  | none => exact h
  | some id =>
    obtain ⟨k, hk, hfront⟩ := h
    exact ⟨k, hk, hfront.trans hu⟩

theorem lastTarget?_attr {a : SpelledAttr} (ha : a.WellFormed) (hq : Quotable a)
    (ht : Tells (assigns isWord "for") "for" a) (hmark : '>' ∉ a.text) {w : List Char} (hw : Ends w)
    (hnone : ∀ b, lastTarget? b w = none) (b : Option Char) :
    Targets b (a.text ++ w) a.text (if isNamed "for" a.name then a.spelling.value else none) := by
  have hn : "for" ∈ soughtNames := by decide
  obtain ⟨bs, c, hbefore, hc, -⟩ := exists_before ha
  obtain ⟨d, m, hname, hbody, hd⟩ := exists_name ha
  have hsplit : '>' ∉ a.before ∧ '>' ∉ a.body := by simpa [SpelledAttr.text] using hmark
  have hlast : a.before.getLast?.or b = some c := by rw [hbefore]; simp
  -- Behind the first character of the name nothing is found.
  have hrest : lastTarget? (some d) (m ++ a.spelling.text ++ w) = none := by
    have hquiet := silent_body ht.quiet fun b c x => assigns_mark hn hw c x
    rw [hname, hbody, List.head?_cons, List.tail_cons] at hquiet
    rw [hbody, List.mem_cons, not_or] at hsplit
    exact lastTarget?_of_none hsplit.2.2 hquiet (hnone _)
  have hplace : lastTarget? (some c) (a.body ++ w) = targetAt? (some c) (a.body ++ w) := by
    rw [hbody, List.cons_append, lastTarget?_cons _ (Markup.ne_of_isAttrChar hd), hrest]
  have hblank : (some c).any isWord = false := by simpa using isWord_of_isBlank hc
  have hfound := targetAt?_body ha hq ht.called hw hblank
  rw [← hlast] at hplace hfound
  rw [SpelledAttr.text, List.append_assoc]
  cases hvalue : (if isNamed "for" a.name then a.spelling.value else none : Option (List Char)) with
  | none =>
    rw [hvalue] at hfound
    have hblanks : Silent (assigns isWord "for") b a.before (a.body ++ w) := silent_of_forall fun b e x hx => by
      have hnone : Cut.wordAnyCase? "for" (e :: (x ++ (a.body ++ w))) = none :=
        wordAnyCase?_of_endsName hn fun f y hf =>
          .inl (endsName_of_isBlank ((List.cons.inj hf).1 ▸ ha.before e (hx.mem (by simp))))
      rw [assigns, hnone, Option.any_none, Bool.and_false]
    exact lastTarget?_of_none hsplit.1 hblanks (hplace.trans hfound)
  | some id =>
    rw [hvalue] at hfound
    obtain ⟨k, hk, htext⟩ := hfound
    obtain ⟨k', hk', htext'⟩ := lastTarget?_of_some hsplit.1 (hplace.trans hk)
    exact ⟨k', hk', by rw [htext', htext]⟩

/-- The value of the last attribute of a name that has one. -/
def lastValue? (n : String) (attrs : List Attr) : Option (List Char) := givenValue? n attrs.reverse

theorem lastValue?_cons (n : String) (a : Attr) (attrs : List Attr) : lastValue? n (a :: attrs) =
    (lastValue? n attrs).or (if isNamed n a.name then a.value else none) := by
  rw [lastValue?, List.reverse_cons, givenValue?, List.findSome?_append, List.findSome?_singleton]
  rfl

theorem lastTarget?_attrs {attrs : List SpelledAttr} (ha : ∀ a ∈ attrs, a.WellFormed) (hq : ∀ a ∈ attrs, Quotable a)
    (ht : ∀ a ∈ attrs, Tells (assigns isWord "for") "for" a) (hmark : '>' ∉ attrs.flatMap SpelledAttr.text)
    {w : List Char} (hw : Ends w) (hnone : ∀ b, lastTarget? b w = none) (b : Option Char) :
    Targets b (attrs.flatMap SpelledAttr.text ++ w) (attrs.flatMap SpelledAttr.text)
      (lastValue? "for" (attrs.map SpelledAttr.attr)) := by
  induction attrs generalizing b with
  | nil => exact hnone b
  | cons a attrs ih =>
    have hrest : ∀ x ∈ attrs, x.WellFormed := fun x hx => ha x (by simp [hx])
    rw [List.flatMap_cons, List.mem_append, not_or] at hmark
    have ih := ih hrest (fun x hx => hq x (by simp [hx])) (fun x hx => ht x (by simp [hx])) hmark.2
    rw [List.flatMap_cons, List.append_assoc, List.map_cons, lastValue?_cons]
    cases hlater : lastValue? "for" (attrs.map SpelledAttr.attr) with
    | none =>
      rw [hlater] at ih
      have hfirst := lastTarget?_attr (ha a (by simp)) (hq a (by simp)) (ht a (by simp)) hmark.1
        (ends_attrs hrest hw) ih b
      rw [Option.none_or]
      exact hfirst.mono (List.prefix_append ..)
    | some id =>
      have ih := ih (a.text.getLast?.or b)
      rw [hlater] at ih
      obtain ⟨k, hk, hfront⟩ := ih
      obtain ⟨k', hk', htext⟩ := lastTarget?_of_some hmark.1 hk
      exact ⟨k', hk', by rw [htext]; exact (List.prefix_append_right_inj _).2 hfront⟩

/-! ### Tags of a document -/

theorem endsWord_of_ends {w : List Char} (h : Ends w) : endsWord w = true := by
  obtain ⟨c, v, rfl, hc⟩ := h.head
  have hword : isWord c = false := by
    simp only [endsName, Bool.or_eq_true, beq_iff_eq] at hc
    rcases hc with (hc | rfl) | rfl
    · exact isWord_of_isBlank hc
    · decide
    · decide
  simp [endsWord, hword]

/-- A scan that takes a first part of a tag goes over the rest of it. -/
theorem lists_of_prefix {α : Type} {r : Recognizer α} (hr : ContextFree r) (hm : AtMark r) {s : List Char} {a : α}
    (hs : '<' ∉ s) (h : ∀ v, ∃ k : Cut ('<' :: s ++ v), r none ('<' :: s ++ v) = some (a, k) ∧ k.text ≠ [] ∧
      k.text <+: '<' :: s) : Lists r ('<' :: s) [a] := by
  intro v
  obtain ⟨k, hk, hne, u, hu⟩ := h v
  have hrest : '<' ∉ u := by
    obtain ⟨c, t, ht⟩ := List.exists_cons_of_ne_nil hne
    rw [ht] at hu
    obtain ⟨-, rfl⟩ := List.cons.inj hu
    exact fun hmem => hs (by simp [hmem])
  have hcut : '<' :: s ++ v = k.text ++ (u ++ v) := by rw [← List.append_assoc, hu]
  have key : ∀ {t w : List Char} {k' : Cut t}, t = w ++ (u ++ v) → r none t = some (a, k') → k'.text = w → w ≠ [] →
      findAll r t = [a] ++ findAll r v := by
    rintro t w k' rfl hk' ht hw
    rw [findAll, segments, segmentsFrom_of_some hw hk' ht, segmentsFrom_eq_segments hr]
    exact congrArg (a :: ·) (lists_of_passes (passes_text hr hm hrest) v)
  exact key hcut hk rfl hne

section

variable {name : String} (hname : name ∈ describedNames) {t : StartTag} (ht : Regular name t)
include hname ht

/-- The name of a tag is taken in front of its attributes. -/
theorem tagStart?_text (v : List Char) : Cut.Gives (tagStart? name (t.text ++ v)) ('<' :: t.name)
    (t.attrs.flatMap SpelledAttr.text ++ (t.tail ++ '>' :: v)) := by
  have hend := endsWord_of_ends (ends_attrs ht.attrs (ends_tail ht.tail v))
  exact tagStart?_gives (sameLetters_of_isNamed hname ht.name) hend (by rw [text_eq]; simp)

/-- A tag is taken by its name up to its end. -/
theorem openTag?_text (v : List Char) :
    ∃ k : Cut (t.text ++ v), openTag? name (t.text ++ v) = some k ∧ k.text = t.text := by
  have hmark : '>' ∉ t.attrs.flatMap SpelledAttr.text ++ t.tail := fun hm =>
    ht.marks.2 (by rw [StartTag.inner]; exact List.mem_append_right _ hm)
  have hend : endsWord (t.attrs.flatMap SpelledAttr.text ++ t.tail ++ ['>']) = true := by
    rw [List.append_assoc]
    exact endsWord_of_ends (ends_attrs ht.attrs (ends_tail ht.tail []))
  have hopening : openingTag t.name (t.attrs.flatMap SpelledAttr.text ++ t.tail) = t.text := by
    rw [text_eq]
    simp [openingTag]
  obtain ⟨k, hk, htext, -⟩ := openTag?_gives (sameLetters_of_isNamed hname ht.name) hmark hend
    (s := t.text ++ v) (v := v) (by rw [hopening])
  exact ⟨k, hk, htext.trans hopening⟩

/-- A tag is found with its text. -/
theorem takes_text : Takes (tag? name) t.text t.text := by
  refine takes_of_eq (fun _ _ => rfl) (by simp [StartTag.text]) fun v => ?_
  obtain ⟨k, hk, htext⟩ := openTag?_text hname ht v
  exact ⟨k, by rw [tag?, hk, Option.map_some, htext], htext⟩

end

theorem contextFree_label : ContextFree labelTarget? := fun _ _ => rfl

theorem labelTarget?_of_tagStart? {b : Option Char} {s : List Char} (h : tagStart? "label" s = none) :
    labelTarget? b s = none := by
  rw [labelTarget?, h]
  rfl

theorem atMark_label : AtMark labelTarget? := fun _ _ hc =>
  labelTarget?_of_tagStart? (Markup.tagStart?_of_ne_mark _ hc _)

/-- A label is found with its target, if it has one. -/
theorem lists_label {t : StartTag} (ht : Regular "label" t) (hq : ∀ a ∈ t.attrs, Quotable a)
    (htells : ∀ a ∈ t.attrs, Tells (assigns isWord "for") "for" a) :
    Lists labelTarget? t.text (lastValue? "for" t.attrList).toList := by
  have hmark : '>' ∉ t.attrs.flatMap SpelledAttr.text := fun hm =>
    ht.marks.2 (by rw [StartTag.inner]; exact List.mem_append_right _ (List.mem_append_left _ hm))
  have htail : ∀ v b, lastTarget? b (t.tail ++ '>' :: v) = none := fun v b =>
    lastTarget?_of_none (fun hm => absurd (ht.tail _ hm) (by decide))
      (silent_of_not_mem (by decide) (fun hm => absurd (ht.tail _ hm) (by decide)) (ends_mark v)) rfl
  have hfound := fun v b => lastTarget?_attrs ht.attrs hq htells hmark (ends_tail ht.tail v) (htail v) b
  have hin : '<' ∉ t.inner ++ ['>'] := by simp [ht.marks.1]
  rw [StartTag.attrList]
  cases htarget : lastValue? "for" (t.attrs.map SpelledAttr.attr) with
  | none =>
    refine lists_of_passes (passes_tag contextFree_label atMark_label (fun v => ?_) hin)
    obtain ⟨start, hstart, -, hrest⟩ := tagStart?_text (by decide) ht v
    have hnone := hfound v (start.last none)
    rw [htarget, ← hrest] at hnone
    show labelTarget? none (t.text ++ v) = none
    rw [labelTarget?, hstart]
    show (lastTarget? (start.last none) start.rest).bind _ = none
    rw [show lastTarget? (start.last none) start.rest = none from hnone]
    rfl
  | some id =>
    refine lists_of_prefix contextFree_label atMark_label hin fun v => ?_
    obtain ⟨start, hstart, htext, hrest⟩ := tagStart?_text (by decide) ht v
    have hsome := hfound v (start.last none)
    rw [htarget, ← hrest] at hsome
    obtain ⟨k, hk, hfront⟩ := hsome
    refine ⟨start.andThen k, ?_, by simp [htext], ?_⟩
    · show labelTarget? none (t.text ++ v) = _
      rw [labelTarget?, hstart]
      show (lastTarget? (start.last none) start.rest).bind _ = _
      rw [hk]
      rfl
    · have hstart : '<' :: t.name ++ k.text <+:
          ('<' :: t.name) ++ (t.attrs.flatMap SpelledAttr.text ++ (t.tail ++ ['>'])) :=
        (List.prefix_append_right_inj _).2 (hfront.trans (List.prefix_append ..))
      rwa [← text_eq, ← htext] at hstart

/-! ### Documents -/

/-- A name is not found at a tag with another one. -/
theorem tagStart?_of_other {n m : String} (hn : IsTagName n) (hm : IsTagName m)
    (hne : ¬ n.toList <+: m.toList ∧ ¬ m.toList <+: n.toList) {w : List Char}
    (hw : List.Forall₂ (fun a c => sameLetter a c = true) m.toList w) (s : List Char) :
    tagStart? n ('<' :: (w ++ s)) = none := by
  by_contra hsome
  obtain ⟨k, hk⟩ := Option.ne_none_iff_exists'.1 hsome
  obtain ⟨w', htext, hw', -⟩ := tagStart?_some hk
  have hcut := k.append_eq
  rw [htext] at hcut
  exact (Shield.prefix_or_prefix hn hm hw' hw (List.cons.inj hcut).2).elim hne.1 hne.2

/-- A part of a document: an image, an input, a label, or anything else. -/
inductive Part where
  | other (x : Item)
  | image (t : StartTag)
  | input (t : StartTag)
  | label (t : StartTag)

/-- The attributes that tell what an input is for, or whether it needs a label. -/
def inputNames : List String := ["type", "placeholder", "aria-label", "id"]

/-- An item that is no image, input or label. -/
def Plain : Item → Prop
  | .mark s => ∀ v, ∀ name ∈ describedNames, tagStart? name ('<' :: (s ++ v)) = none
  | _ => True

namespace Part

/-- A start tag as an item of a document. -/
def mark (t : StartTag) : Item := .mark (t.inner ++ ['>'])

def item : Part → Item
  | other x => x
  | image t | input t | label t => mark t

/-- The attributes of a described tag are set apart by white space, and none of them only mentions what is
looked for. -/
def WellFormed : Part → Prop
  | other x => x.WellFormed ∧ Plain x
  | image t => Regular "img" t ∧ ∀ a ∈ t.attrs, Tells (calls "alt") "alt" a
  | input t => Regular "input" t ∧ ∀ n ∈ inputNames, ∀ a ∈ t.attrs, Tells (assigns isHyphened n) n a
  | label t => Regular "label" t ∧ ∀ a ∈ t.attrs, Quotable a ∧ Tells (assigns isWord "for") "for" a

/-- The text of a document. -/
def textAll (d : List Part) : List Char := (d.map item).flatMap Item.chars

/-- The tag whose attributes are looked at. -/
def described? : Part → Option StartTag
  | other _ => none
  | image t | input t | label t => some t

def image? : Part → Option StartTag
  | image t => some t
  | _ => none

def input? : Part → Option StartTag
  | input t => some t
  | _ => none

/-- The target of a label: the value of its last attribute that gives one. -/
def target? : Part → Option (List Char)
  | label t => lastValue? "for" t.attrList
  | _ => none

end Part

theorem beginsNone_regular {name : String} (hname : name ∈ describedNames) {t : StartTag} (ht : Regular name t) :
    BeginsNone (t.inner ++ ['>']) := by
  have hother : ∀ n ∈ rawNames, ∀ m ∈ describedNames, ¬ n.toList <+: m.toList ∧ ¬ m.toList <+: n.toList := by
    decide
  have hletters := nameLetter_of_isNamed hname ht.name
  have hinner : ∀ v, t.inner ++ ['>'] ++ v =
      t.name ++ (t.attrs.flatMap SpelledAttr.text ++ (t.tail ++ ['>']) ++ v) := by
    intro v
    simp [StartTag.inner]
  intro v
  rw [hinner]
  refine ⟨word?_of_ne fun u hu => ?_, fun n hn => ?_⟩
  · have hne : ∀ n ∈ describedNames, n.toList ≠ [] := by decide
    cases hw : t.name with
    | nil =>
      have hsame := sameLetters_of_isNamed hname ht.name
      rw [hw] at hsame
      exact hne name hname (List.forall₂_nil_right_iff.1 hsame)
    | cons c w =>
      rw [hw, List.cons_append] at hu
      have hword := (hletters c (by simp [hw])).isWord
      rw [(List.cons.inj hu).1] at hword
      exact absurd hword (by decide)
  · exact tagStart?_of_other (Shield.isTagName_of_mem (mem_names_of_raw hn)) (isTagName_of_described hname)
      (hother n hn name hname) (sameLetters_of_isNamed hname ht.name) _

theorem wellFormed_mark {name : String} (hname : name ∈ describedNames) {t : StartTag} (ht : Regular name t) :
    (Part.mark t).WellFormed :=
  ⟨by simp [ht.marks.1], beginsNone_regular hname ht⟩

theorem wellFormed_item {x : Part} (hx : x.WellFormed) : x.item.WellFormed := by
  cases x with
  | other x => exact hx.1
  | image t => exact wellFormed_mark (by decide) hx.1
  | input t => exact wellFormed_mark (by decide) hx.1
  | label t => exact wellFormed_mark (by decide) hx.1

theorem markupOnly_textAll {d : List Part} (hd : ∀ x ∈ d, x.WellFormed) :
    markupOnly (Part.textAll d) = (d.map Part.item).flatMap Item.visible :=
  markupOnly_chars fun x hx => by
    obtain ⟨y, hy, rfl⟩ := List.mem_map.1 hx
    exact wellFormed_item (hd y hy)

/-- A recogniser of what begins with a tag of the given name. -/
structure Begins {α : Type} (name : String) (r : Recognizer α) : Prop where
  contextFree : ContextFree r
  none : ∀ s, tagStart? name s = none → r none s = none

namespace Begins

variable {α : Type} {name : String} {r : Recognizer α} (h : Begins name r)
include h

theorem atMark : AtMark r := fun _ _ hc => h.none _ (Markup.tagStart?_of_ne_mark _ hc _)

/-- Nothing is found in what is visible of an item that is no described tag. -/
theorem lists_plain (hname : name ∈ describedNames) {x : Item} (hx : x.WellFormed) (hplain : Plain x) :
    Lists r x.visible [] := by
  cases x with
  | text s => exact lists_of_passes (passes_text h.contextFree h.atMark hx)
  | mark s =>
    exact lists_of_passes (passes_tag h.contextFree h.atMark (fun v => h.none _ (hplain v name hname)) hx.1)
  | comment m => exact fun _ => rfl
  | raw e =>
    have hx : Contained e := hx
    obtain ⟨m, hm, he⟩ := hx.spells
    have hother : ∀ m ∈ rawNames, ∀ n ∈ describedNames, ¬ n.toList <+: m.toList ∧ ¬ m.toList <+: n.toList := by
      decide
    have hword : '<' ∉ e.word := fun hmem => (hx.nameLetter.1 _ hmem).ne (by decide) rfl
    have hclosing : '<' ∉ e.closingWord := fun hmem => (hx.nameLetter.2 _ hmem).ne (by decide) rfl
    have hspace : '<' ∉ e.space := fun hmem => by
      have hblank : ∀ c ∈ e.space, isBlank c = true := he.space
      exact absurd (hblank _ hmem) (by decide)
    have hletter : ∀ n ∈ describedNames, n.toList ≠ [] ∧ ∀ a ∈ n.toList, sameLetter a '/' = false := by decide
    have hopen : Passes r e.opening := passes_tag h.contextFree h.atMark (fun v => h.none _ (by
      rw [List.append_assoc]
      exact tagStart?_of_other (isTagName_of_described hname) (Shield.isTagName_of_mem (mem_names_of_raw hm))
        (hother m hm name hname) he.opens _)) (by simp [hword, hx.attrs])
    have hclose : Passes r e.closing := passes_tag h.contextFree h.atMark (fun v => h.none _ (by
      obtain ⟨hne, hslash⟩ := hletter name hname
      obtain ⟨a, w, haw⟩ := List.exists_cons_of_ne_nil hne
      exact Markup.tagStart?_of_first haw (hslash a (by simp [haw])) _)) (by simp [hclosing, hspace])
    exact lists_of_passes (hopen.append hclose)

/-- Nothing is found in a described tag of another name. -/
theorem lists_other (hname : name ∈ describedNames) {m : String} (hm : m ∈ describedNames) (hne : name ≠ m)
    {t : StartTag} (ht : Regular m t) : Lists r t.text [] := by
  have hother : ∀ n ∈ describedNames, ∀ m ∈ describedNames, n ≠ m →
      ¬ n.toList <+: m.toList ∧ ¬ m.toList <+: n.toList := by decide
  refine lists_of_passes (passes_tag h.contextFree h.atMark (fun v => h.none _ ?_) (by simp [ht.marks.1]))
  rw [StartTag.inner, List.append_assoc, List.append_assoc]
  exact tagStart?_of_other (isTagName_of_described hname) (isTagName_of_described hm) (hother name hname m hm hne)
    (sameLetters_of_isNamed hm ht.name) _

end Begins

theorem begins_tag (name : String) : Begins name (tag? name) where
  contextFree _ _ := rfl
  none s h := by
    rw [tag?, openTag?, h]
    rfl

theorem begins_label : Begins "label" labelTarget? where
  contextFree := contextFree_label
  none _ h := labelTarget?_of_tagStart? h

/-- What is found in a document is found part by part. -/
theorem findAll_visible {α : Type} {r : Recognizer α} {f : Part → Option α} {d : List Part}
    (h : ∀ x ∈ d, Lists r x.item.visible (f x).toList) :
    findAll r ((d.map Part.item).flatMap Item.visible) = d.filterMap f := by
  induction d with
  | nil => simp [findAll]
  | cons x d ih =>
    rw [List.map_cons, List.flatMap_cons, h x (by simp), ih fun y hy => h y (List.mem_cons_of_mem _ hy)]
    cases hx : f x with
    | none => rw [List.filterMap_cons_none hx]; rfl
    | some a => rw [List.filterMap_cons_some hx]; rfl

section

variable {d : List Part} (hd : ∀ x ∈ d, x.WellFormed)
include hd

/-- The images of a document are found. -/
theorem findAll_image : findAll (tag? "img") ((d.map Part.item).flatMap Item.visible) =
    (d.filterMap Part.image?).map StartTag.text := by
  rw [findAll_visible (f := fun x => x.image?.map StartTag.text), List.map_filterMap]
  intro x hx
  have hwf := hd x hx
  cases x with
  | other x => exact (begins_tag "img").lists_plain (by decide) hwf.1 hwf.2
  | image t => exact lists_of_takes (takes_text (by decide) hwf.1)
  | input t => exact (begins_tag "img").lists_other (by decide) (by decide) (by decide) hwf.1
  | label t => exact (begins_tag "img").lists_other (by decide) (by decide) (by decide) hwf.1

/-- The inputs of a document are found. -/
theorem findAll_input : findAll (tag? "input") ((d.map Part.item).flatMap Item.visible) =
    (d.filterMap Part.input?).map StartTag.text := by
  rw [findAll_visible (f := fun x => x.input?.map StartTag.text), List.map_filterMap]
  intro x hx
  have hwf := hd x hx
  cases x with
  | other x => exact (begins_tag "input").lists_plain (by decide) hwf.1 hwf.2
  | image t => exact (begins_tag "input").lists_other (by decide) (by decide) (by decide) hwf.1
  | input t => exact lists_of_takes (takes_text (by decide) hwf.1)
  | label t => exact (begins_tag "input").lists_other (by decide) (by decide) (by decide) hwf.1

/-- The targets of the labels of a document are found. -/
theorem findAll_label : findAll labelTarget? ((d.map Part.item).flatMap Item.visible) =
    d.filterMap Part.target? := by
  refine findAll_visible fun x hx => ?_
  have hwf := hd x hx
  cases x with
  | other x => exact begins_label.lists_plain (by decide) hwf.1 hwf.2
  | image t => exact begins_label.lists_other (by decide) (by decide) (by decide) hwf.1
  | input t => exact begins_label.lists_other (by decide) (by decide) (by decide) hwf.1
  | label t => exact lists_label hwf.1 (fun a ha => (hwf.2 a ha).1) fun a ha => (hwf.2 a ha).2

end

/-! ### Findings -/

/-- The attributes of the images of a document. -/
def images (d : List Part) : List (List Attr) := (d.filterMap Part.image?).map StartTag.attrList

/-- The attributes of the inputs of a document. -/
def inputs (d : List Part) : List (List Attr) := (d.filterMap Part.input?).map StartTag.attrList

/-- The type that a tag gives an input: a text unless it says something else. -/
def typeOf (attrs : List Attr) : List Char :=
  match givenValue? "type" attrs with
  | none | some [] => "text".toList
  | some v => lower v

/-- An attribute is there and not empty. -/
def describes (n : String) (attrs : List Attr) : Bool := (givenValue? n attrs).any fun v => !v.isEmpty

/-- An input holds text, and neither its attributes nor a label tells what it is for. -/
def needsLabel (targets : List (List Char)) (attrs : List Attr) : Bool :=
  textInputTypes.contains (String.ofList (typeOf attrs)) && !describes "placeholder" attrs &&
    !describes "aria-label" attrs && !(givenValue? "id" attrs).any targets.contains

theorem isUnlabelled_text {t : StartTag} (ht : Regular "input" t)
    (htells : ∀ n ∈ inputNames, ∀ a ∈ t.attrs, Tells (assigns isHyphened n) n a) (targets : List (List Char)) :
    isUnlabelled targets t.text = needsLabel targets t.attrList := by
  have hsought : ∀ n ∈ inputNames, n ∈ soughtNames := by decide
  have hread : ∀ n ∈ inputNames, attribute? n t.text = givenValue? n t.attrList := fun n hn =>
    attribute?_text (by decide) (hsought n hn) ht (htells n hn)
  have htype : inputType t.text = typeOf t.attrList :=
    congrArg (fun v => match v with
      | none | some [] => "text".toList
      | some v => lower v) (hread "type" (by decide))
  have hfilled : ∀ n ∈ inputNames, filled n t.text = describes n t.attrList := fun n hn =>
    congrArg (fun v => v.any fun v => !v.isEmpty) (hread n hn)
  rw [isUnlabelled, needsLabel, htype, hfilled "placeholder" (by decide), hfilled "aria-label" (by decide),
    hread "id" (by decide)]

/-- What is numbered and reported of some tags is told by their attributes. -/
theorem filterMap_zipIdx_text {β : Type} {f : List Char × Nat → Option β} {g : List Attr × Nat → Option β}
    {ts : List StartTag} (h : ∀ t ∈ ts, ∀ i, f (t.text, i) = g (t.attrList, i)) (i : Nat) :
    ((ts.map StartTag.text).zipIdx i).filterMap f = ((ts.map StartTag.attrList).zipIdx i).filterMap g := by
  induction ts generalizing i with
  | nil => rfl
  | cons t ts ih =>
    have ih := ih (fun x hx => h x (List.mem_cons_of_mem _ hx)) (i + 1)
    simp only [List.map_cons, List.zipIdx_cons, List.filterMap_cons, h t (by simp) i, ih]

/-- The attributes of a described tag are those that a reader of the tag finds. -/
theorem read_described {d : List Part} (hd : ∀ x ∈ d, x.WellFormed) :
    ∀ t ∈ d.filterMap Part.described?, readStartTag? t.text = some (t.name, t.attrList) := by
  intro t ht
  obtain ⟨x, hx, hxt⟩ := List.mem_filterMap.1 ht
  have hwf := hd x hx
  cases x with
  | other x => cases hxt
  | image t' => exact Option.some.inj hxt ▸ read_of_regular (by decide) hwf.1
  | input t' => exact Option.some.inj hxt ▸ read_of_regular (by decide) hwf.1
  | label t' => exact Option.some.inj hxt ▸ read_of_regular (by decide) hwf.1

/-- The accessibility of a document, as the attributes tell it that a reader finds in its tags: an image is
reported by its number if it has no attribute for its description, and an input if it holds text and nothing
tells what it is for. -/
theorem accessibility_textAll {d : List Part} (hd : ∀ x ∈ d, x.WellFormed) :
    (∀ t ∈ d.filterMap Part.described?, readStartTag? t.text = some (t.name, t.attrList)) ∧
    (inspect (Part.textAll d)).filter (fun f => subject f = .images) =
        ((images d).zipIdx 1).filterMap (fun (attrs, i) =>
          if attrs.any (fun a => isNamed "alt" a.name) then none else some (.imageWithoutAlt i)) ∧
      (inspect (Part.textAll d)).filter (fun f => subject f = .inputs) =
        ((inputs d).zipIdx 1).filterMap fun (attrs, i) =>
          if needsLabel (d.filterMap Part.target?) attrs then some (.inputWithoutLabel i) else none := by
  rw [filter_subject, filter_subject]
  simp only [findings, undescribed, unlabelled, markupOnly_textAll hd, findAll_image hd, findAll_input hd,
    findAll_label hd, images, inputs]
  refine ⟨read_described hd, filterMap_zipIdx_text (fun t ht i => ?_) 1, filterMap_zipIdx_text (fun t ht i => ?_) 1⟩
  · obtain ⟨x, hx, hxt⟩ := List.mem_filterMap.1 ht
    cases x with
    | image t' =>
      obtain rfl := Option.some.inj hxt
      obtain ⟨hregular, htells⟩ := hd _ hx
      have hany : (t'.attrList.any fun a => isNamed "alt" a.name) = t'.attrs.any fun a => isNamed "alt" a.name := by
        rw [StartTag.attrList, List.any_map]
        rfl
      simp only [hasAttribute_text (by decide) (by decide) hregular htells, hany]
    | _ => cases hxt
  · obtain ⟨x, hx, hxt⟩ := List.mem_filterMap.1 ht
    cases x with
    | input t' =>
      obtain rfl := Option.some.inj hxt
      obtain ⟨hregular, htells⟩ := hd _ hx
      simp only [isUnlabelled_text hregular htells]
    | _ => cases hxt

/-- An attribute behind a space, with its value between double quotes. -/
def sampleAttr (name value : String) : SpelledAttr := Attr.spell ⟨name.toList, some value.toList⟩

/-- The target of a label behind a line break. -/
def sampleTarget : SpelledAttr := ⟨['\n'], "FOR".toList, .quoted '\'' [] [' '] "mail".toList⟩

/-- A type without quotes. -/
def sampleType : SpelledAttr := ⟨[' '], "type".toList, .unquoted [] [] "checkbox".toList⟩

/-- A document with two images, of which one has a description, and three inputs, of which one has a label
and one needs none. -/
def sampleParts : List Part :=
  [.other (.comment "<img>".toList), .image ⟨"img".toList, [sampleAttr "alt" ""], ['/']⟩,
    .image ⟨"Img".toList, [sampleAttr "title" "salt =", sampleAttr "data-alt" "x"], []⟩,
    .label ⟨"label".toList, [sampleTarget], []⟩, .other (.text "1 > 0".toList),
    .input ⟨"input".toList, [sampleAttr "type" "EMail", sampleAttr "id" "mail"], ['/']⟩,
    .input ⟨"input".toList, [sampleAttr "data-id" "mail", sampleAttr "placeholder" ""], []⟩,
    .input ⟨"input".toList, [sampleType], [' ', '/']⟩]

theorem sampleAttr_wellFormed {name value : String} (hn : Markup.isAttrName name.toList = true)
    (hv : '"' ∉ value.toList) : (sampleAttr name value).WellFormed :=
  Attr.spell_wellFormed hn fun _ h => Option.some.inj h ▸ hv

theorem sampleTarget_wellFormed : sampleTarget.WellFormed where
  before_ne := by decide
  before := by decide
  name_ne := by decide
  name := by decide
  spelling := ⟨by decide, by decide, by decide, by decide⟩

theorem sampleType_wellFormed : sampleType.WellFormed where
  before_ne := by decide
  before := by decide
  name_ne := by decide
  name := by decide
  spelling := ⟨by decide, by decide, by decide, by decide⟩

theorem wellFormed_sampleParts : ∀ x ∈ sampleParts, x.WellFormed := by
  have hattr : ∀ x ∈ [("alt", ""), ("title", "salt ="), ("data-alt", "x"), ("type", "EMail"), ("id", "mail"),
      ("data-id", "mail"), ("placeholder", "")], (sampleAttr x.1 x.2).WellFormed := by
    intro x hx
    have hall : ∀ x ∈ [("alt", ""), ("title", "salt ="), ("data-alt", "x"), ("type", "EMail"), ("id", "mail"),
      ("data-id", "mail"), ("placeholder", "")], Markup.isAttrName x.1.toList = true ∧ '"' ∉ x.2.toList := by decide
    exact sampleAttr_wellFormed (hall x hx).1 (hall x hx).2
  simp only [List.forall_mem_cons] at hattr
  obtain ⟨h₁, h₂, h₃, h₄, h₅, h₆, h₇, -⟩ := hattr
  simp only [sampleParts, List.forall_mem_cons, Part.WellFormed, Plain, Item.WellFormed]
  refine ⟨⟨by decide, trivial⟩, ⟨⟨by decide, by simp [h₁], by decide, by decide, by decide⟩, by decide⟩,
    ⟨⟨by decide, by simp [h₂, h₃], by decide, by decide, by decide⟩, by decide⟩,
    ⟨⟨by decide, by simp [sampleTarget_wellFormed], by decide, by decide, by decide⟩, ?_⟩,
    ⟨by decide, trivial⟩, ⟨⟨by decide, by simp [h₄, h₅], by decide, by decide, by decide⟩, by decide⟩,
    ⟨⟨by decide, by simp [h₆, h₇], by decide, by decide, by decide⟩, by decide⟩,
    ⟨⟨by decide, by simp [sampleType_wellFormed], by decide, by decide, by decide⟩, by decide⟩, by simp⟩
  exact ⟨⟨fun _ => .inr ⟨_, _, _, _, rfl, by decide, by decide, by decide⟩, by decide⟩, by simp⟩

/-- In the sample the second image and the second input are reported. -/
theorem accessibility_sampleParts : (∀ x ∈ sampleParts, x.WellFormed) ∧
    ((inspect (Part.textAll sampleParts)).filter fun f => subject f = .images) = [.imageWithoutAlt 2] ∧
      ((inspect (Part.textAll sampleParts)).filter fun f => subject f = .inputs) = [.inputWithoutLabel 2] := by
  obtain ⟨-, himages, hinputs⟩ := accessibility_textAll wellFormed_sampleParts
  refine ⟨wellFormed_sampleParts, ?_, ?_⟩
  · rw [himages]
    decide
  · rw [hinputs]
    decide

end PagePress.Inspect
