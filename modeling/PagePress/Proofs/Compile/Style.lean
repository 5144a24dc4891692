import PagePress.Proofs.Compile
import PagePress.Proofs.Reduce.Sheets

/-!
The style element of a compiled document. The first end tag behind its opening tag is its own
(`style_of_compile`): the stylesheet is made safe for its element whatever the colours of the theme
are, and the reduction keeps it so for colours without `<`, and for all colours without NUL characters,
comments and tags of scripts. A colour that spells the end tag of the element around a NUL character or a
comment gets past that, and the reduction then joins the pieces of the end tag
(`exists_spellsEndTag_dropNul`, `exists_spellsEndTag_compact`).
-/

namespace PagePress.Markup

open Text Html Document

/-- The stylesheet of a document as a reader finds it. -/
def styleElement (css : List Char) : Element := ⟨"style".toList, [], '\n' :: (css ++ "\n  ".toList)⟩

namespace Outline

/-- The parts of a document before its style element. -/
def frontParts (o : Outline) : List (Part Element) :=
  .tag (.declaration "DOCTYPE html".toList) :: (nodeParts (.line 0) ++
    .tag (.opening "html".toList ([.fixed "lang" "en"].map attrOf)) :: (nodeParts (.line 0) ++
      .tag (.opening "head".toList ([].map attrOf)) :: treeParts o.headNodes))

/-- A document up to the end of its style element. -/
def front (o : Outline) : List (Span Element) :=
  spans o.frontParts ++ [⟨.sealed (styleElement o.css), []⟩]

theorem spans_frontParts (o : Outline) :
    spans (o.frontParts ++ [.tag (.sealed (styleElement o.css))]) = o.front := by
  rw [spans_append_tag]
  rfl

theorem nodeParts_sheet (o : Outline) :
    nodeParts (.element "style" [] o.sheet) = [.tag (.sealed (styleElement o.css))] := by
  have hname : "style".toList ∈ sealedNames := by decide
  have hcontent : Node.textAll o.sheet = '\n' :: (o.css ++ "\n  ".toList) := by
    simp [sheet, Node.textAll, Node.line, Node.fixed, Node.raw, Node.text, Piece.text]
  rw [nodeParts, if_pos hname, hcontent]
  rfl

/-- A document goes on behind its style element. -/
theorem frontParts_prefix (o : Outline) :
    o.frontParts ++ [.tag (.sealed (styleElement o.css))] <+: o.docParts := by
  have hhtml : "html".toList ∉ sealedNames := by decide
  have hhead : "head".toList ∉ sealedNames := by decide
  rw [docParts, nodes, children]
  simp only [frontParts, treeParts, nodeParts_element hhtml, nodeParts_element hhead, treeParts_append,
    nodeParts_sheet, List.append_assoc, List.cons_append, List.nil_append]
  exact ⟨_, by simp only [List.append_assoc, List.cons_append, List.nil_append]; rfl⟩

theorem exists_text_eq (o : Outline) : ∃ rest, text o.document = text o.front ++ rest := by
  obtain ⟨rest, hrest⟩ := o.frontParts_prefix
  refine ⟨rest.flatMap Part.chars, ?_⟩
  have hall := lead_append_text_spans o.docParts
  have hlead := lead_append_text_spans (o.frontParts ++ [.tag (.sealed (styleElement o.css))])
  rw [spans_frontParts] at hlead
  rw [← hrest, List.flatMap_append, ← hlead, hrest] at hall
  exact hall

/-- The keys of a document are in front of its style element. -/
theorem nodup_metaKeys_front {o : Outline}
    (h : ∃ id, List.Sublist (treeAttrs "meta" o.headSnippets)
      [[.fixed "name" accountKey, .escaped "content" id]]) : (metaKeys (reduced o.front)).Nodup := by
  let o' : Outline := { o with body := [], script := [], bodySnippets := [] }
  have hall : (metaKeys (reduced o'.document)).Nodup := nodup_metaKeys ⟨h, rfl, rfl⟩
  refine hall.sublist ?_
  have hsub : List.Sublist (attrsOf "meta".toList o.front) (attrsOf "meta".toList o'.document) := by
    rw [document, ← spans_frontParts, attrsOf_spans, attrsOf_spans]
    exact o'.frontParts_prefix.sublist.filterMap _
  rw [metaKeys, metaKeys, attrsOf_reduced, attrsOf_reduced]
  exact (hsub.map _).filterMap _

theorem wellFormed_frontParts {o : Outline} (hs : ProperAll o.headSnippets) :
    Markup.WellFormed (spans o.frontParts) := by
  let o' : Outline := { o with css := [], body := [], script := [], bodySnippets := [] }
  have hwf : o'.WellFormed := ⟨hs, by simp [o'], trivial, by simp [o'], trivial⟩
  refine wellFormed_spans fun q hq => ?_
  have hq : q ∈ o'.docParts := o'.frontParts_prefix.mem (List.mem_append_left _ hq)
  rcases List.mem_cons.1 hq with rfl | hq
  · exact rfl
  · exact wellFormed_treeParts o'.nodes hwf.proper_nodes q hq

/-- A document up to the end of its style element, with any stylesheet sealed up in this. -/
def sheeted (o : Outline) (content : List Char) : List (Span Sheeted) :=
  mapSealed .element (withoutNul (spans o.frontParts)) ++ [⟨.sealed (.sheet content), []⟩]

theorem dropNul_front (o : Outline) (hs : ProperAll o.headSnippets) :
    Shield.dropNul (text o.front) =
      text (o.sheeted (Shield.dropNul ('\n' :: (o.css ++ "\n  ".toList)))) := by
  have htags : ∀ content, Shield.dropNul (sheetElement content).text =
      (sheetElement (Shield.dropNul content)).text := by
    intro content
    simp only [RawElement.text, dropNul_append]
    rfl
  rw [front, sheeted, text_append, text_append, dropNul_append, dropNul_text (wellFormed_frontParts hs),
    text_mapSealed_element]
  simp only [text_cons, text_nil, List.append_nil]
  exact congrArg _ (htags _)

theorem attrsOf_append_sealed {ε : Type} (n : List Char) (d : List (Span ε)) (e : ε) :
    attrsOf n (d ++ [⟨.sealed e, []⟩]) = attrsOf n d := by
  simp [attrsOf, Tag.attrsOf?]

/-- Up to the end of its style element, a document can be followed tag by tag if its head is proper and
its stylesheet is quiet. -/
theorem passable_sheeted {o : Outline} (hs : ProperAll o.headSnippets)
    (hm : ∃ id, List.Sublist (treeAttrs "meta" o.headSnippets)
      [[.fixed "name" accountKey, .escaped "content" id]])
    {content : List Char} (hc : Stylesheet.Quiet content) : Passable (o.sheeted content) where
  wellFormed s hmem := by
    rcases List.mem_append.1 hmem with h | h
    · exact (withoutNul_wellFormed (wellFormed_frontParts hs)).mapSealed (f := Sheeted.element)
        (fun _ => id) s h
    · obtain rfl := List.mem_singleton.1 h
      exact ⟨hc, by simp⟩
  nulFree s hmem := by
    rcases List.mem_append.1 hmem with h | h
    · exact (nulFree_withoutNul (wellFormed_frontParts hs)).mapSealed (f := Sheeted.element)
        (fun _ => id) s h
    · obtain rfl := List.mem_singleton.1 h
      exact ⟨mt nul_mem_sheetElement.1 hc.nul, by simp⟩
  first s t hs := by
    obtain rfl : _ = s := Option.some.inj hs
    rintro ⟨⟩
  last := ⟨_, _, rfl, by rintro _ ⟨⟩⟩
  keys := by
    -- the style element has no part in the keys
    have hkeys : metaKeys (passed (o.sheeted content)) = metaKeys (passed (withoutNul o.front)) := by
      have hfront : withoutNul o.front = withoutNul (spans o.frontParts) ++
          [⟨.sealed (styleElement o.css).withoutNul, []⟩] := by
        rw [front, withoutNul, edit_append, mapSealed_append]
        rfl
      rw [metaKeys, metaKeys, attrsOf_passed, attrsOf_passed, hfront, sheeted, attrsOf_append_sealed,
        attrsOf_append_sealed, attrsOf_mapSealed]
    rw [hkeys]
    exact nodup_metaKeys_front hm

end Outline

variable {v : Vendors} {o : Options} {clock : ClockReading} {p : Page} {out : Output}

/-- What the style element of a page's document holds. -/
def sheetContent (p : Page) (o : Options) : List Char :=
  '\n' :: (Stylesheet.pageText p.theme o.animations ++ "\n  ".toList)

theorem not_spellsEndTag_sheetContent (p : Page) (o : Options) :
    ¬ Embed.SpellsEndTag "style" (sheetContent p o) := by
  rintro ⟨u, hu, hend⟩
  rcases List.suffix_cons_iff.1 hu with rfl | hu
  · obtain ⟨t, ht, -⟩ := Embed.exists_of_isSome_endTag hend
    cases ht
  · refine Embed.not_spellsEndTag_style _ (Embed.spellsEndTag_of_append (v := "\n  ".toList) ?_ ⟨u, hu, hend⟩)
    decide

/-- Dropping the NUL characters of a safe text can join the pieces of an end tag. -/
theorem exists_spellsEndTag_dropNul :
    ∃ s, Embed.SpellsEndTag "style" (Shield.dropNul (Embed.style s)) :=
  ⟨"</sty\x00le>".toList, _, List.suffix_refl _, by decide +kernel⟩

/-- So can dropping its comments. -/
theorem exists_spellsEndTag_compact :
    ∃ s, '\x00' ∉ s ∧ Embed.SpellsEndTag "style" (Stylesheet.compact (Embed.style s)) :=
  ⟨"</sty/**/le>".toList, by decide, _, List.suffix_refl _, by decide +kernel⟩

theorem passed_append_sealed {ε : Type} [Compactable ε] (d : List (Span ε)) (e : ε) :
    passed (d ++ [⟨.sealed e, []⟩]) =
      passed d ++ [⟨.sealed (Compactable.compactScript (Compactable.compactStyle e)), []⟩] := by
  rw [passed, dropComments_append (by rintro _ ⟨⟩)]
  simp only [edit_append, mapSealed_append]
  rfl

/-- The colours of a theme that the reduction makes no end tag of: both are without `<`, or both are
steady. -/
def Embeddable (theme : Theme) : Prop :=
  (Stylesheet.Unmarked theme.primaryColor ∧ Stylesheet.Unmarked theme.secondaryColor) ∨
    (Stylesheet.Steady theme.primaryColor ∧ Stylesheet.Steady theme.secondaryColor)

theorem quiet_sheetContent (h : Embeddable p.theme) (o : Options) :
    Stylesheet.Quiet (Shield.dropNul (sheetContent p o)) := by
  refine ⟨nul_not_mem_dropNul _, fun hm => ?_⟩
  rcases h with ⟨h1, h2⟩ | ⟨h1, h2⟩
  · have hm := mem_of_mem_dropNul hm
    simp [sheetContent, Stylesheet.not_mem_pageText h1 h2] at hm
  · have hcalm : Stylesheet.Calm (sheetContent p o) :=
      (Stylesheet.calm_pageText h1 h2 o.animations).append_blanks (x := ['\n']) (y := "\n  ".toList)
        (by decide) (by decide)
    rwa [dropNul_of_not_mem fun hnul => hcalm _ .nul ((List.singleton_infix_iff _ _).2 hnul)]

/-- The stylesheet of a page never spells the end tag of its element. In the document of a page the
stylesheet stands between a style element's opening tag and its end tag, and spells no other end tag
in between: without the reduction for all colours, and with it for colours without `<` as well as for
colours in which no NUL, no comment and no tag of a script is to be found. -/
theorem style_of_compile (h : compile v o clock p = .ok out) :
    ¬ Embed.SpellsEndTag "style" (Stylesheet.pageText p.theme o.animations) ∧
      ((o.minify = true → Embeddable p.theme) →
        ∃ before sheet after,
          out.html = before ++ ("<style>".toList ++ sheet ++ "</style>".toList) ++ after ∧
          sheet = (if o.minify then Stylesheet.compact (Shield.dropNul (sheetContent p o))
            else sheetContent p o) ∧
          ¬ Embed.SpellsEndTag "style" sheet) := by
  refine ⟨Embed.not_spellsEndTag_style _, fun hcolours => ?_⟩
  obtain ⟨script, -, hhtml, -⟩ := compile_eq h
  obtain ⟨rest, hrest⟩ := (pageOutline v o clock p script).exists_text_eq
  rw [hrest] at hhtml
  cases hminify : o.minify with
  | false =>
    refine ⟨text (spans (pageOutline v o clock p script).frontParts), sheetContent p o, rest, ?_, rfl,
      not_spellsEndTag_sheetContent p o⟩
    rw [hhtml, hminify, if_neg (by simp), Outline.front, text_append, text_cons]
    simp only [text_nil, List.append_nil]
    rfl
  | true =>
    have hquiet := quiet_sheetContent (hcolours hminify) o
    have hhead := proper_headTrees v o
    have hfront := (pageOutline v o clock p script).dropNul_front hhead
    obtain ⟨w, hw, -⟩ :=
      exists_reduce_eq hfront (Outline.passable_sheeted hhead (metas_headTrees v o) hquiet) rest
    refine ⟨text (passed (mapSealed Sheeted.element
        (withoutNul (spans (pageOutline v o clock p script).frontParts)))),
      Stylesheet.compact (Shield.dropNul (sheetContent p o)), w, ?_, rfl, hquiet.compact.not_spellsEndTag⟩
    rw [hhtml, hminify, if_pos rfl, hw, Outline.sheeted, passed_append_sealed, text_append, text_cons]
    simp only [text_nil, List.append_nil]
    rfl

/-- A page one of whose colours spells the end tag of the style element. -/
def boldPage : Page := { samplePage with theme := { samplePage.theme with primaryColor := "</Style><p>" } }

theorem style_of_boldPage : ∃ out, compile {} {} sampleClock boldPage = .ok out ∧
    ∃ before sheet after,
      out.html = before ++ ("<style>".toList ++ sheet ++ "</style>".toList) ++ after ∧
      ¬ Embed.SpellsEndTag "style" sheet := by
  obtain ⟨out, h⟩ := exists_compile (v := {}) (o := {}) (p := boldPage) rfl sampleClock_inRange
  have hcolours : Embeddable boldPage.theme :=
    .inr ⟨⟨by decide, by decide, by decide⟩, ⟨by decide, by decide, by decide⟩⟩
  obtain ⟨before, sheet, after, hhtml, -, hsheet⟩ := (style_of_compile h).2 fun _ => hcolours
  exact ⟨out, h, before, sheet, after, hhtml, hsheet⟩

end PagePress.Markup
