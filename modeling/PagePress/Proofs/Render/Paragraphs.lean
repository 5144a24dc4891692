import Mathlib.Data.List.Infix
import PagePress.Proofs.Render
import PagePress.Proofs.Text.Blank
import PagePress.Proofs.Text.Lines

/-!
Paragraphs of body copy, and how a content section shows them. A paragraph is a line that is trimmed already
(`isParagraph_of_mem`), so the paragraphs of a text, on lines of their own, are found again
(`paragraphs_intercalate`). What stands after each opening tag of a paragraph is read off a text from left to
right (`textsAfter`); a part of a section shows some paragraphs if it adds exactly these tags, whatever follows
it (`Shows`). No other part of a content section opens a paragraph, so the section shows the paragraphs of its
body copy (`shows_content`).
-/

namespace PagePress

open Text

/-! ### Paragraphs -/

/-- A trimmed line that is not empty. -/
structure IsParagraph (p : List Char) : Prop where
  ne_nil : p ≠ []
  head : ∀ c ∈ p.head?, isBlank c = false
  last : ∀ c ∈ p.getLast?, isBlank c = false
  line : ∀ c ∈ p, isLineEnd c = false

theorem IsParagraph.trim_eq {p : List Char} (h : IsParagraph p) : trim p = p := by
  have hstart : trimStart p = p := dropWhile_isBlank_eq_self h.head
  have hend : p.reverse.dropWhile isBlank = p.reverse :=
    dropWhile_isBlank_eq_self fun c hc => h.last c (by rwa [List.head?_reverse] at hc)
  rw [trim, hstart, trimEnd, hend, List.reverse_reverse]

theorem isBlank_of_mem_getLast?_trim {s : List Char} {c : Char} (h : c ∈ (trim s).getLast?) :
    isBlank c = false := by
  rw [trim, trimEnd, List.getLast?_reverse] at h
  exact isBlank_of_mem_head?_dropWhile h

theorem isParagraph_of_mem {s p : List Char} (h : p ∈ paragraphs s) : IsParagraph p := by
  obtain ⟨hmem, hne⟩ := List.mem_filter.1 h
  obtain ⟨line, hline, rfl⟩ := List.mem_map.1 hmem
  refine ⟨?_, fun c hc => isBlank_of_mem_head?_trim hc, fun c hc => isBlank_of_mem_getLast?_trim hc, ?_⟩
  · simpa using hne
  · intro c hc
    exact isLineEnd_of_mem_lines hline ((isInfix_trim line).subset hc)

/-- The paragraphs hold everything of a text but white space. -/
theorem filter_flatten_paragraphs (s : List Char) :
    ((paragraphs s).flatten.filter fun c => !isBlank c) = s.filter fun c => !isBlank c := by
  rw [← filter_flatten_lines s, paragraphs]
  induction lines s with
  | nil => rfl
  | cons line ls ih =>
    rw [List.map_cons, List.flatten_cons, List.filter_append, ← ih, ← filter_trim line]
    by_cases hblank : trim line = []
    · simp [hblank]
    · simp [hblank]

/-- Paragraphs on lines of their own are those lines. -/
theorem lines_intercalate {ps : List (List Char)} (h : ∀ p ∈ ps, IsParagraph p) :
    lines (['\n'].intercalate ps) = ps := by
  induction ps with
  | nil => rfl
  | cons p ps ih =>
    obtain ⟨hp, hps⟩ := List.forall_mem_cons.1 h
    cases ps with
    | nil =>
      rw [List.intercalate_singleton]
      exact lines_of_line hp.ne_nil hp.line
    | cons q ps =>
      rw [List.intercalate_cons_of_ne_nil (List.cons_ne_nil q ps), List.append_assoc, List.singleton_append,
        lines_append hp.line, ih hps]

theorem paragraphs_intercalate {ps : List (List Char)} (h : ∀ p ∈ ps, IsParagraph p) :
    paragraphs (['\n'].intercalate ps) = ps := by
  have htrim : ps.map trim = ps := by
    rw [List.map_congr_left fun p hp => (h p hp).trim_eq, List.map_id']
  rw [paragraphs, lines_intercalate h, htrim, List.filter_eq_self]
  intro p hp
  simpa using (h p hp).ne_nil

namespace Markup

open Html Render

/-! ### Tags of paragraphs -/

/-- What stands after each occurrence of a word. -/
def textsAfter (w s : List Char) : List (List Char) := s.tails.filterMap w.isPrefixOf?

/-- The text opens these paragraphs and no others: each tag has the escaped paragraph and the closing tag right
after it. -/
def Shows (u : List Char) (ps : List (List Char)) : Prop :=
  ∀ v, ∃ texts, textsAfter "<p>".toList (u ++ v) = texts ++ textsAfter "<p>".toList v ∧
    List.Forall₂ (fun p text => escape p ++ "</p>".toList <+: text) ps texts

theorem textsAfter_nil : textsAfter "<p>".toList [] = [] := by decide

theorem textsAfter_cons (c : Char) (s : List Char) :
    textsAfter "<p>".toList (c :: s) =
      ("<p>".toList.isPrefixOf? (c :: s)).toList ++ textsAfter "<p>".toList s := by
  unfold textsAfter
  rw [List.tails_cons, List.filterMap_cons]
  cases "<p>".toList.isPrefixOf? (c :: s) <;> rfl

theorem textsAfter_of_ne {c : Char} (h : c ≠ '<') (s : List Char) :
    textsAfter "<p>".toList (c :: s) = textsAfter "<p>".toList s := by
  have hnone : "<p>".toList.isPrefixOf? (c :: s) = none := by
    simp [List.isPrefixOf?, beq_false_of_ne (Ne.symm h)]
  rw [textsAfter_cons, hnone]
  rfl

theorem textsAfter_append {u : List Char} (h : '<' ∉ u) (v : List Char) :
    textsAfter "<p>".toList (u ++ v) = textsAfter "<p>".toList v := by
  induction u with
  | nil => rfl
  | cons c u ih =>
    obtain ⟨hc, hu⟩ := not_or.1 (mt List.mem_cons.2 h)
    rw [List.cons_append, textsAfter_of_ne (Ne.symm hc), ih hu]

/-! ### Parts of a section -/

theorem shows_of_not_mem {u : List Char} (h : '<' ∉ u) : Shows u [] :=
  fun v => ⟨[], textsAfter_append h v, .nil⟩

theorem Shows.append {u u' : List Char} {ps ps' : List (List Char)} (h : Shows u ps) (h' : Shows u' ps') :
    Shows (u ++ u') (ps ++ ps') := by
  intro v
  obtain ⟨texts, htexts, hps⟩ := h (u' ++ v)
  obtain ⟨texts', htexts', hps'⟩ := h' v
  refine ⟨texts ++ texts', ?_, List.rel_append hps hps'⟩
  rw [List.append_assoc, htexts, htexts', List.append_assoc]

theorem Shows.texts {u : List Char} {ps : List (List Char)} (h : Shows u ps) :
    List.Forall₂ (fun p text => escape p ++ "</p>".toList <+: text) ps (textsAfter "<p>".toList u) := by
  obtain ⟨texts, htexts, hps⟩ := h []
  rw [List.append_nil, textsAfter_nil, List.append_nil] at htexts
  rwa [htexts]

/-- A tag with another name opens no paragraph. -/
theorem shows_tag {c : Char} {u : List Char} (hc : c ≠ 'p') (hu : '<' ∉ c :: u) : Shows ('<' :: c :: u) [] := by
  intro v
  have hnone : "<p>".toList.isPrefixOf? ('<' :: c :: (u ++ v)) = none := by
    simp [List.isPrefixOf?, beq_false_of_ne (Ne.symm hc)]
  refine ⟨[], ?_, .nil⟩
  have hskip := textsAfter_append hu v
  rw [List.cons_append] at hskip
  rw [List.cons_append, List.cons_append, textsAfter_cons, hnone, hskip]
  rfl

theorem not_mem_escape (s : List Char) : '<' ∉ escape s :=
  fun h => absurd (escape_marks _ h).1 (by decide)

theorem shows_paragraph (p : List Char) : Shows (Node.element "p" [] [.escaped (.ofList p)]).text [p] := by
  intro v
  have htext : (Node.element "p" [] [.escaped (.ofList p)]).text = "<p>".toList ++ escape p ++ "</p>".toList := by
    simp [Node.text, Node.textAll, Node.openingText, Node.closingText, Node.escaped, Piece.text]
  have hclose : Shows "</p>".toList [] := shows_tag (by decide) (by decide)
  have hrest : Shows (escape p ++ "</p>".toList) [] := (shows_of_not_mem (not_mem_escape p)).append hclose
  obtain ⟨texts, htexts, hnil⟩ := hrest v
  cases hnil
  refine ⟨[escape p ++ "</p>".toList ++ v], ?_, .cons (List.prefix_append _ _) .nil⟩
  have hopen : ∀ s, textsAfter "<p>".toList ("<p>".toList ++ s) = s :: textsAfter "<p>".toList s := by
    intro s
    have hsome : "<p>".toList.isPrefixOf? ('<' :: 'p' :: '>' :: s) = some s := by
      simp [List.isPrefixOf?]
    show textsAfter "<p>".toList ('<' :: 'p' :: '>' :: s) = _
    rw [textsAfter_cons, hsome, textsAfter_of_ne (by decide), textsAfter_of_ne (by decide)]
    rfl
  -- behind the tag stand the paragraph and the closing tag, and these open nothing
  rw [htext, List.append_assoc "<p>".toList, List.append_assoc "<p>".toList, hopen, htexts]
  rfl

/-- A name of elements that are no paragraphs. -/
def isOther (n : String) : Bool := n.toList.head?.any (· != 'p') && !n.toList.contains '<'

theorem exists_of_isOther {n : String} (h : isOther n = true) :
    ∃ c rest, n.toList = c :: rest ∧ c ≠ 'p' ∧ '<' ∉ n.toList := by
  simp only [isOther, Bool.and_eq_true, Bool.not_eq_true', List.contains_eq_mem, decide_eq_false_iff_not,
    Option.any_eq_true, bne_iff_ne] at h
  obtain ⟨⟨c, hhead, hc⟩, hmark⟩ := h
  obtain ⟨rest, hname⟩ := List.head?_eq_some_iff.1 hhead
  exact ⟨c, rest, hname, hc, hmark⟩

theorem shows_openingText {n : String} {attrs : List Attribute} (hn : isOther n = true)
    (ha : ∀ a ∈ attrs, '<' ∉ a.text) : Shows (Node.openingText n attrs) [] := by
  obtain ⟨c, rest, hname, hc, hmark⟩ := exists_of_isOther hn
  have hattrs : '<' ∉ attrs.flatMap Attribute.text := by
    intro h
    obtain ⟨a, hmem, h⟩ := List.mem_flatMap.1 h
    exact ha a hmem h
  have htag : '<' ∉ n.toList ++ attrs.flatMap Attribute.text ++ ['>'] := by
    rw [List.mem_append, List.mem_append]
    rintro ((h | h) | h)
    · exact hmark h
    · exact hattrs h
    · exact absurd h (by decide)
  rw [hname] at htag
  unfold Node.openingText
  rw [hname]
  exact shows_tag hc htag

theorem shows_closingText {n : String} (hn : isOther n = true) : Shows (Node.closingText n) [] := by
  obtain ⟨-, -, -, -, hmark⟩ := exists_of_isOther hn
  have htag : '<' ∉ '/' :: (n.toList ++ ['>']) := by
    rw [List.mem_cons, List.mem_append]
    rintro (h | h | h)
    · exact absurd h (by decide)
    · exact hmark h
    · exact absurd h (by decide)
  exact shows_tag (by decide) htag

theorem shows_void {n : String} {attrs : List Attribute} (hn : isOther n = true)
    (ha : ∀ a ∈ attrs, '<' ∉ a.text) : Shows (Node.void n attrs).text [] := by
  rw [Node.text]
  exact shows_openingText hn ha

theorem shows_element {n : String} {attrs : List Attribute} {children : List Node} {ps : List (List Char)}
    (hn : isOther n = true) (ha : ∀ a ∈ attrs, '<' ∉ a.text) (hc : Shows (Node.textAll children) ps) :
    Shows (Node.element n attrs children).text ps := by
  have h := ((shows_openingText hn ha).append hc).append (shows_closingText hn)
  rw [Node.text]
  simpa using h

theorem shows_piece {p : Piece} (h : '<' ∉ p.text) : Shows (Node.piece p).text [] := by
  rw [Node.text]
  exact shows_of_not_mem h

theorem shows_line (i : Nat) : Shows (Node.line i).text [] := by
  refine shows_piece fun h => ?_
  have h : '<' ∈ '\n' :: List.replicate i ' ' := by rwa [Piece.text, String.toList_ofList] at h
  rcases List.mem_cons.1 h with h | h
  · exact absurd h (by decide)
  · exact absurd (List.eq_of_mem_replicate h) (by decide)

theorem shows_escaped (s : String) : Shows (Node.escaped s).text [] := shows_piece (not_mem_escape s.toList)

theorem shows_textAll_nil : Shows (Node.textAll []) [] := shows_of_not_mem List.not_mem_nil

theorem shows_textAll_append {ns ms : List Node} {ps qs : List (List Char)} (h : Shows (Node.textAll ns) ps)
    (h' : Shows (Node.textAll ms) qs) : Shows (Node.textAll (ns ++ ms)) (ps ++ qs) := by
  rw [textAll_append]
  exact h.append h'

theorem shows_textAll_cons {n : Node} {ns : List Node} {ps qs : List (List Char)} (h : Shows n.text ps)
    (h' : Shows (Node.textAll ns) qs) : Shows (Node.textAll (n :: ns)) (ps ++ qs) := by
  rw [Node.textAll]
  exact h.append h'

/-- The start of a line adds nothing. -/
theorem shows_textAll_line (i : Nat) {ns : List Node} {ps : List (List Char)} (h : Shows (Node.textAll ns) ps) :
    Shows (Node.textAll (.line i :: ns)) ps := shows_textAll_cons (shows_line i) h

/-! ### Content -/

theorem shows_paragraphs (ps : List (List Char)) :
    Shows (Node.textAll (ps.flatMap fun p => [.line 8, .element "p" [] [.escaped (.ofList p)]])) ps := by
  induction ps with
  | nil => exact shows_textAll_nil
  | cons p ps ih => exact shows_textAll_line 8 (shows_textAll_cons (shows_paragraph p) ih)

theorem not_mem_escaped {name value : String} (h : '<' ∉ name.toList) :
    '<' ∉ (Attribute.escaped name value).text := by
  simp [Attribute.text, Attribute.escaped, Piece.textAll, Piece.text, not_mem_escape, h]

theorem not_mem_fixed {name value : String} (h : '<' ∉ name.toList) (hv : '<' ∉ value.toList) :
    '<' ∉ (Attribute.fixed name value).text := by
  simp [Attribute.text, Attribute.fixed, Piece.textAll, Piece.text, h, hv]

theorem not_mem_style {property value : String} (h : '<' ∉ property.toList) (hv : '<' ∉ value.toList) :
    '<' ∉ (Attribute.style property value).text := by
  simp [Attribute.text, Attribute.style, Piece.textAll, Piece.text, h, hv]

theorem shows_contentImage (url title : String) : Shows (Node.textAll (contentImage url title)) [] := by
  have himage : Shows (Node.void "img"
      [.escaped "src" url, .escaped "alt" title, .fixed "class" "responsive-image"]).text [] := by
    refine shows_void (by decide) ?_
    simp only [List.forall_mem_cons]
    exact ⟨not_mem_escaped (by decide), not_mem_escaped (by decide), not_mem_fixed (by decide) (by decide),
      List.forall_mem_nil _⟩
  have hframe : Shows (Node.element "div" [.fixed "class" "content-image"] _).text [] :=
    shows_element (by decide) (by decide)
      (shows_textAll_line 6 (shows_textAll_cons himage (shows_textAll_line 4 shows_textAll_nil)))
  exact shows_textAll_line 4 (shows_textAll_cons hframe shows_textAll_nil)

theorem shows_contentText {b : Content} (hcolor : '<' ∉ b.textColor.toList) :
    Shows (Node.textAll (contentText b)) (paragraphs b.content.toList) := by
  have hattrs : ∀ {name : String}, '<' ∉ name.toList →
      ∀ a ∈ [Attribute.fixed "class" name, .style "color" b.textColor], '<' ∉ a.text := by
    intro name hname
    simp only [List.forall_mem_cons]
    exact ⟨not_mem_fixed (by decide) hname, not_mem_style (by decide) hcolor, List.forall_mem_nil _⟩
  have htitle : Shows (Node.element "h2" [.fixed "class" "content-title", .style "color" b.textColor]
      [.escaped b.title]).text [] :=
    shows_element (by decide) (hattrs (by decide)) (shows_textAll_cons (shows_escaped b.title) shows_textAll_nil)
  have hbody := shows_element (n := "div") (by decide) (hattrs (by decide : '<' ∉ "content-body".toList))
    (shows_textAll_append (shows_paragraphs (paragraphs b.content.toList))
      (shows_textAll_line 6 shows_textAll_nil))
  have hframe : Shows (Node.element "div" [.fixed "class" "content-text"] _).text _ :=
    shows_element (by decide) (by decide)
      (shows_textAll_line 6 (shows_textAll_cons htitle
        (shows_textAll_line 6 (shows_textAll_cons hbody (shows_textAll_line 4 shows_textAll_nil)))))
  have h := shows_textAll_line 4 (shows_textAll_cons hframe shows_textAll_nil)
  rw [contentText]
  simpa using h

theorem shows_contentParts {b : Content} (hcolor : '<' ∉ b.textColor.toList) :
    Shows (Node.textAll (contentParts b)) (paragraphs b.content.toList) := by
  have htext := shows_contentText hcolor
  unfold contentParts
  split
  · exact htext
  · rename_i url _
    have himage := shows_contentImage url b.title
    split
    · exact shows_textAll_append himage htext
    · simpa using shows_textAll_append htext himage

/-- A content section shows the paragraphs of its body copy. -/
theorem shows_content {id : String} {b : Content} {c : Context}
    (hraw : ∀ v ∈ rawValues (.content b), '<' ∉ v.toList) :
    Shows (content id b c).text (paragraphs b.content.toList) := by
  have hcolor : '<' ∉ b.backgroundColor.toList := hraw _ (by simp [rawValues])
  have htext : '<' ∉ b.textColor.toList := hraw _ (by simp [rawValues])
  have hlayout : '<' ∉ (contentClasses b).toList := by
    unfold contentClasses
    split
    · decide
    · split <;> decide
  have hclasses : '<' ∉ ("content-section " ++ b.padding.cssClass ++
      if c.animate then " animate-fade-in" else "").toList := by
    cases b.padding <;> cases c.animate <;> decide
  have hframe : Shows (Node.element "div" [.fixed "class" (contentClasses b)]
      (contentParts b ++ [.line 2])).text (paragraphs b.content.toList ++ []) := by
    refine shows_element (by decide) ?_
      (shows_textAll_append (shows_contentParts htext) (shows_textAll_line 2 shows_textAll_nil))
    simpa using not_mem_fixed (by decide) hlayout
  have hchildren := shows_textAll_line 2 (shows_textAll_cons hframe (shows_textAll_line 0 shows_textAll_nil))
  rw [List.append_nil, List.append_nil] at hchildren
  refine shows_element (by decide) ?_ hchildren
  simp only [List.forall_mem_cons]
  exact ⟨not_mem_escaped (by decide), not_mem_fixed (by decide) hclasses, not_mem_style (by decide) hcolor,
    not_mem_escaped (by decide), not_mem_fixed (by decide) (by decide), List.forall_mem_nil _⟩

/-- The paragraphs of a text are trimmed lines that are not empty. They hold all of the text but its white space,
they are found again on lines of their own, and a content section with this body copy opens a paragraph for each
of them in order and no other one. -/
theorem paragraphs_of_copy (t : List Char) :
    (∀ p ∈ paragraphs t, IsParagraph p) ∧
      ((paragraphs t).flatten.filter fun c => !isBlank c) = (t.filter fun c => !isBlank c) ∧
      paragraphs (['\n'].intercalate (paragraphs t)) = paragraphs t ∧
      ∀ (c : Context) (s : Section) (b : Content), s.block = .content b → b.content.toList = t →
        (∀ v ∈ rawValues s.block, '<' ∉ v.toList) →
        List.Forall₂ (fun p text => escape p ++ "</p>".toList <+: text) (paragraphs t)
          (textsAfter "<p>".toList (fragment c s)) := by
  refine ⟨fun p hp => isParagraph_of_mem hp, filter_flatten_paragraphs t,
    paragraphs_intercalate fun p hp => isParagraph_of_mem hp, ?_⟩
  rintro c s b hblock rfl hraw
  rw [hblock] at hraw
  have hfragment : fragment c s = (content s.id b c).text := by
    unfold fragment node?
    rw [hblock]
  rw [hfragment]
  exact (shows_content hraw).texts

/-- Body copy with several kinds of marks at the ends of its lines. -/
def mixedCopy : String := "\u00a0One\x0b \r\n\u2028\tTwo <p> & three\u3000\n"

/-- A content section with this copy beside an image. -/
def notes : Section where
  id := "notes"
  order := 1
  block := .content { title := "<p>", content := mixedCopy, imageUrl := some "notes.png", imagePosition := .left }

/-- This section shows two paragraphs, one of which speaks of the tag itself. -/
theorem paragraphs_of_notes : (∀ v ∈ rawValues notes.block, '<' ∉ v.toList) ∧
    ∀ c : Context, List.Forall₂ (fun p text => escape p ++ "</p>".toList <+: text)
      ["One".toList, "Two <p> & three".toList] (textsAfter "<p>".toList (fragment c notes)) := by
  have hraw : ∀ v ∈ rawValues notes.block, '<' ∉ v.toList := by decide
  have hparagraphs : paragraphs mixedCopy.toList = ["One".toList, "Two <p> & three".toList] := by
    decide
  refine ⟨hraw, fun c => ?_⟩
  have h := (paragraphs_of_copy mixedCopy.toList).2.2.2 c notes _ rfl rfl hraw
  rwa [hparagraphs] at h

end Markup

end PagePress
