import PagePress.Proofs.Shield.Embedded
import PagePress.Proofs.Stylesheet.Page

/-!
Stylesheets with marks of tags in them. A stylesheet in which no word stands that ends its element or
that a pass of the reduction would take for something else (`Calm`) is compacted by itself, and is calm
again; so the reduction can be followed on a document with such a stylesheet sealed up in it
(`Sheeted`).
-/

namespace PagePress.Html

open Text

theorem NameLetter.not_loose {c : Char} (h : NameLetter c) :
    Stylesheet.isLoose c = false ∧ c ≠ '\\' := by
  rcases h.ascii_or with ⟨hascii, h⟩ | h
  · have hall : ∀ n < 128, (caseless (.ofNat n)).isLower = true →
        Stylesheet.isLoose (.ofNat n) = false ∧ Char.ofNat n ≠ '\\' := by decide
    simpa using hall c.toNat hascii (by simpa using h)
  · have hall : ∀ c ∈ ['İ', '\u212A', 'ſ', 'ı'], Stylesheet.isLoose c = false ∧ c ≠ '\\' := by
      decide +kernel
    exact hall c h

/-- A scan for tags of a name goes over a text in which none starts, up to the next mark. -/
theorem segments_startless {α : Type} {name : String} {r : Recognizer α} (hname : IsTagName name)
    (hr : Markup.OpensWith [name] r) {s : List Char} (hs : Startless name s) (v : List Char) :
    segments r (s ++ '<' :: v) = s.map .plain ++ segments r ('<' :: v) := by
  induction s with
  | nil => rfl
  | cons c s ih =>
    have hstart : tagStart? name (c :: (s ++ '<' :: v)) = none := by
      by_contra hne
      obtain ⟨k, hk⟩ := Option.ne_none_iff_exists'.1 hne
      obtain ⟨w, htext, hw, hend⟩ := tagStart?_some hk
      have hcut := k.append_eq
      rw [htext] at hcut
      obtain ⟨rfl, hcut⟩ := List.cons.inj hcut
      have hmark : '<' ∉ w := fun hm => (nameLetter_of_forall₂ hname hw _ hm).ne (by decide) rfl
      obtain ⟨z, rfl, hz⟩ := exists_of_append_eq hmark hcut
      have hend : endsWord z = true := by
        rw [hz] at hend
        cases z with
        | nil => rfl
        | cons d z => exact hend
      obtain ⟨k', hk', -⟩ := tagStart?_gives hw hend (s := '<' :: (w ++ z)) rfl
      rw [hs _ List.suffix_rfl] at hk'
      cases hk'
    have hnone : r none (c :: (s ++ '<' :: v)) = none := by
      refine hr.none _ fun m hm => ?_
      obtain rfl := List.mem_singleton.1 hm
      simp [openTag?, hstart]
    rw [List.cons_append, segments, segmentsFrom_of_none hnone, segmentsFrom_eq_segments hr.contextFree,
      ih (hs.of_suffix (List.suffix_cons c s))]
    rfl

end PagePress.Html

namespace PagePress.Stylesheet

open Text Html

/-! ### Calm stylesheets -/

/-- A word that must not come up in a stylesheet while it is reduced: a NUL, the opening of a comment,
and in any case the start tag of a script and the end tag of the style element. -/
inductive Trigger : List Char → Prop where
  | nul : Trigger ['\x00']
  | comment : Trigger "/*".toList
  | script {w : List Char} (h : List.Forall₂ (fun a c => sameLetter a c = true) "script".toList w) :
    Trigger ('<' :: w)
  | style {w : List Char} (h : List.Forall₂ (fun a c => sameLetter a c = true) "style".toList w) :
    Trigger ('<' :: '/' :: w)

/-- The characters of such a word are written by no pass, and are neither white space nor backslashes. -/
theorem Trigger.chars {w : List Char} (h : Trigger w) :
    ∀ c ∈ w, isLoose c = false ∧ isBlank c = false ∧ c ≠ '\\' := by
  have hmarks : ∀ c ∈ ['\x00', '/', '*', '<'], isLoose c = false ∧ isBlank c = false ∧ c ≠ '\\' := by
    decide
  have hletters : ∀ {name : String} {w : List Char}, name ∈ Shield.names →
      List.Forall₂ (fun a c => sameLetter a c = true) name.toList w →
      ∀ c ∈ w, isLoose c = false ∧ isBlank c = false ∧ c ≠ '\\' := by
    intro name w hname hw c hc
    have hletter := nameLetter_of_forall₂ (Shield.isTagName_of_mem hname) hw c hc
    exact ⟨hletter.not_loose.1, hletter.isBlank, hletter.not_loose.2⟩
  cases h with
  | nul => exact List.forall_mem_singleton.2 (hmarks _ (by simp))
  | comment => decide
  | script hw => exact List.forall_mem_cons.2 ⟨hmarks _ (by simp), hletters (by decide) hw⟩
  | style hw =>
    exact List.forall_mem_cons.2 ⟨hmarks _ (by simp),
      List.forall_mem_cons.2 ⟨hmarks _ (by simp), hletters (by decide) hw⟩⟩

theorem Trigger.firm {w : List Char} (h : Trigger w) : Firm w := fun c hc => (h.chars c hc).1

theorem Trigger.ne_nil {w : List Char} (h : Trigger w) : w ≠ [] := by
  cases h <;> simp

/-- A text in which no such word stands. -/
def Calm (s : List Char) : Prop := ∀ w, Trigger w → ¬ w <:+: s

variable {s : List Char}

theorem Calm.compact (h : Calm s) : Calm (compact s) := fun w hw hi =>
  h w hw (hw.firm.infix_of_compact (h _ .comment) hi)

/-- White space around a text does not matter. -/
theorem Calm.append_blanks (h : Calm s) {x y : List Char} (hx : ∀ c ∈ x, isBlank c = true)
    (hy : ∀ c ∈ y, isBlank c = true) : Calm (x ++ (s ++ y)) := by
  intro w hw hi
  have hsolid : ∀ c ∈ w, (!isBlank c) = true := fun c hc => by simp [(hw.chars c hc).2.1]
  refine h w hw ?_
  have hi := infix_of_infix_append hw.ne_nil hsolid (fun c hc => by simp [hx c hc]) hi
  exact infix_of_append_infix hw.ne_nil hsolid (fun c hc => by simp [hy c hc]) hi

theorem Calm.startless (h : Calm s) : Startless "script" s := by
  intro t ht
  by_contra hne
  obtain ⟨k, hk⟩ := Option.ne_none_iff_exists'.1 hne
  obtain ⟨w, htext, hw, -⟩ := tagStart?_some hk
  have hfront : '<' :: w <+: t := ⟨k.rest, by rw [← htext, k.append_eq]⟩
  exact h _ (.script hw) (hfront.isInfix.trans ht.isInfix)

theorem Calm.closeless (h : Calm s) : Closeless "style" s := by
  intro t ht
  by_contra hne
  obtain ⟨w, space, v, rfl, -, hw⟩ := isSome_closeTag?.1 (Option.isSome_iff_ne_none.2 hne)
  have hfront : '<' :: '/' :: w <+: closingTag w space ++ v := ⟨space ++ '>' :: v, by simp [closingTag]⟩
  exact h _ (.style hw) (hfront.isInfix.trans ht.isInfix)

/-- The words of the reduction do not come from the fixed texts of a page's stylesheet. -/
theorem Trigger.foreign {w : List Char} (h : Trigger w) : Foreign w where
  head := by
    cases h with
    | nul => exact ⟨_, _, rfl, by decide⟩
    | comment => exact ⟨_, _, rfl, by decide⟩
    | script => exact ⟨_, _, rfl, by decide⟩
    | style => exact ⟨_, _, rfl, by decide⟩
  semicolon hm := absurd (h.firm _ hm) (by decide)
  backslash hm := (h.chars _ hm).2.2 rfl

/-- A colour that holds no NUL, and in which neither a comment nor the tag of a script begins. -/
structure Steady (s : String) : Prop where
  nul : '\x00' ∉ s.toList
  comment : ¬ "/*".toList <:+: s.toList
  script : ¬ Embed.SpellsStartTag "script" s.toList

/-- The stylesheet of a page with such colours is calm: it has been made safe for its element. -/
theorem calm_pageText {theme : Theme} (h1 : Steady theme.primaryColor) (h2 : Steady theme.secondaryColor)
    (animate : Bool) : Calm (pageText theme animate) := by
  intro w hw hi
  obtain ⟨s, hs, his⟩ : ∃ s, Steady s ∧ w <:+: s.toList :=
    (infix_of_pageText hw.foreign hi).elim (⟨_, h1, ·⟩) (⟨_, h2, ·⟩)
  cases hw with
  | nul => exact hs.nul (his.mem (by simp))
  | comment => exact hs.comment his
  | script hw => exact hs.script (Embed.spellsStartTag_of_infix his hw)
  | style hw => exact Embed.not_spellsEndTag_style _ (Embed.spellsEndTag_iff.2 ⟨_, hi, hw⟩)

/-- What a style element may hold that is reduced by itself: no NUL, and no `<` unless it is calm. -/
structure Quiet (s : List Char) : Prop where
  nul : '\x00' ∉ s
  calm : '<' ∈ s → Calm s

theorem Quiet.startless (h : Quiet s) : Startless "script" s := by
  by_cases hmark : '<' ∈ s
  · exact (h.calm hmark).startless
  · exact startless_of_not_mem hmark

theorem Quiet.closeless (h : Quiet s) : Closeless "style" s := by
  by_cases hmark : '<' ∈ s
  · exact (h.calm hmark).closeless
  · exact closeless_of_not_mem hmark

/-- Neither a NUL nor a `<` comes into a stylesheet. -/
theorem mem_of_mem_compact {c : Char} (hc : c ∈ ['\x00', '<']) (h : c ∈ compact s) : c ∈ s := by
  have hfiller : ∀ c ∈ ['\x00', '<'], ¬ isFiller c := by
    unfold isFiller
    decide
  exact (mem_compact h).resolve_right (hfiller c hc)

theorem Quiet.compact (h : Quiet s) : Quiet (compact s) where
  nul hm := h.nul (mem_of_mem_compact (by simp) hm)
  calm hm := (h.calm (mem_of_mem_compact (by simp) hm)).compact

/-- A quiet stylesheet does not end its element. -/
theorem Quiet.not_spellsEndTag (h : Quiet s) : ¬ Embed.SpellsEndTag "style" s := by
  intro hend
  obtain ⟨w, hi, hw⟩ := Embed.spellsEndTag_iff.1 hend
  exact h.calm (hi.mem (by simp)) _ (.style hw) hi

end PagePress.Stylesheet

namespace PagePress.Markup

open Text Html Stylesheet

/-! ### Documents with such a stylesheet -/

/-- The style element of a stylesheet. -/
def sheetElement (content : List Char) : RawElement := ⟨"style".toList, [], content, "style".toList, []⟩

theorem spells_sheetElement {content : List Char} (h : Closeless "style" content) :
    (sheetElement content).Spells sameCaseless "style" (sheetElement content).word := by
  have hopens : List.Forall₂ (fun a c => sameLetter a c = true) "style".toList "style".toList := by decide
  have hcloses : List.Forall₂ (fun a c => sameCaseless a c = true) "style".toList "style".toList := by
    decide
  have hend : endsWord ['>'] = true := by decide
  exact spells_of_closeless (Shield.isTagName_of_mem (by decide)) (sheetElement content) hopens
    (by simp [sheetElement]) hend hcloses (by simp [sheetElement]) h

theorem nul_mem_sheetElement {content : List Char} :
    '\x00' ∈ (sheetElement content).text ↔ '\x00' ∈ content := by
  have hopening : '\x00' ∉ (sheetElement content).opening := by
    show '\x00' ∉ openingTag "style".toList []
    decide
  have hclosing : '\x00' ∉ (sheetElement content).closing := by
    show '\x00' ∉ closingTag "style".toList []
    decide
  have hbody : (sheetElement content).body = content := rfl
  simp [RawElement.text, hopening, hclosing, hbody]

/-- A sealed element of a document, or a stylesheet that need not be free of `<`. -/
inductive Sheeted where
  | element (e : Element)
  | sheet (content : List Char)

namespace Sheeted

instance : Written Sheeted where
  text
    | element e => Written.text e
    | sheet content => (sheetElement content).text
  WellFormed
    | element e => e.WellFormed
    | sheet content => Quiet content

instance : Sealed Sheeted where
  takes
    | element _, h => takes_shielded h
    | sheet content, h =>
      Shield.IsElement.takes ⟨"style", by decide, sheetElement content, spells_sheetElement h.closeless, rfl⟩

/-- A sealed element with its stylesheet compacted. -/
def compactStyle : Sheeted → Sheeted
  | element e => element e.compactStyle
  | sheet content => sheet (compact content)

/-- A sealed element with its script compacted. -/
def compactScript : Sheeted → Sheeted
  | element e => element e.compactScript
  | sheet content => sheet content

/-- What the scan for stylesheets takes. -/
def takenStyle : Sheeted → Option (List Char)
  | element e => takenElement ["style"] Element.compactStyle e
  | sheet content => some (sheetElement (compact content)).text

/-- What the scan for scripts takes. -/
def takenScript : Sheeted → Option (List Char)
  | element e => takenElement ["script"] Element.compactScript e
  | sheet _ => none

theorem reads_style {e : Sheeted} (h : Written.WellFormed e) :
    Reads Reduce.styleElement? (Written.text e) e.takenStyle := by
  cases e with
  | element e => exact reads_styleElement h
  | sheet content =>
    have hname : IsTagName "style" := Shield.isTagName_of_mem (by decide)
    have hcloseless := Quiet.closeless h
    have htakes : Takes (refilled "style" Shield.styleFill) (sheetElement content).text
        (sheetElement (compact content)).text :=
      takes_refilled hname ((spells_sheetElement hcloseless).sameLetter hname hcloseless)
    exact htakes

/-- The scan for scripts goes over the stylesheet. -/
theorem reads_script {e : Sheeted} (h : Written.WellFormed e) :
    Reads Reduce.scriptElement? (Written.text e) e.takenScript := by
  cases e with
  | element e => exact reads_scriptElement h
  | sheet content =>
    have hopening : Passes Reduce.scriptElement? (openingText "style".toList []) :=
      opensWith_script.passes_opening (by decide) (by decide) (by simp)
    have hclosing : Passes Reduce.scriptElement? (closingText "style".toList) :=
      opensWith_script.passes_closing (by decide)
    intro v
    have hcontent : segments Reduce.scriptElement? (content ++ (closingText "style".toList ++ v)) =
        content.map .plain ++ segments Reduce.scriptElement? (closingText "style".toList ++ v) :=
      segments_startless (Shield.isTagName_of_mem (by decide)) opensWith_script (Quiet.startless h) _
    show segments _ (openingText "style".toList [] ++ content ++ closingText "style".toList ++ v) =
      (openingText "style".toList [] ++ content ++ closingText "style".toList).map .plain ++ _
    rw [List.append_assoc, List.append_assoc, hopening, hcontent, hclosing]
    simp

theorem getD_takenStyle (e : Sheeted) :
    e.takenStyle.getD (Written.text e) = Written.text e.compactStyle := by
  cases e with
  | element e => exact getD_styleElement e
  | sheet content => rfl

theorem getD_takenScript (e : Sheeted) :
    e.takenScript.getD (Written.text e) = Written.text e.compactScript := by
  cases e with
  | element e => exact getD_scriptElement e
  | sheet content => rfl

instance : Compactable Sheeted where
  compactStyle := compactStyle
  compactScript := compactScript
  wellFormed_style
    | element _, h => Element.compactStyle_wellFormed h
    | sheet _, h => Quiet.compact h
  wellFormed_script
    | element _, h => Element.compactScript_wellFormed h
    | sheet _, h => h
  nul_style
    | element _, h => Element.nul_compactStyle h
    | sheet _, h => fun hm => h (nul_mem_sheetElement.2 (mem_of_mem_compact (by simp) (nul_mem_sheetElement.1 hm)))
  nul_script
    | element _, h => Element.nul_compactScript h
    | sheet _, h => h
  rewrites_style _ :=
    rewrites_sealed opensWith_style (by decide) (fun _ => reads_style) fun e _ => getD_takenStyle e
  rewrites_script _ :=
    rewrites_sealed opensWith_script (by decide) (fun _ => reads_script) fun e _ => getD_takenScript e

end Sheeted

theorem text_mapSealed_element (d : List (Span Element)) : text (mapSealed Sheeted.element d) = text d := by
  have htag : ∀ t : Tag Element, (t.map Sheeted.element).text = t.text := by
    intro t
    cases t <;> rfl
  induction d with
  | nil => rfl
  | cons s d ih => simp [htag, ih]

end PagePress.Markup
