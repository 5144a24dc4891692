import PagePress.Proofs.Markup.Texts
import PagePress.Proofs.Reduce.Attributes
import PagePress.Proofs.Reduce.Comments
import PagePress.Proofs.Reduce.Embedded
import PagePress.Proofs.Reduce.Images
import PagePress.Proofs.Reduce.Metas
import PagePress.Reduce

/-!
The reduction of a document as a whole. All seven passes together edit each tag and each text of
a well-formed document by itself (`reduce_text`). Which elements are sealed up in the document does not
matter to this as long as two of the passes change them one by one (`rewrites_passes`).
-/

namespace PagePress.Markup

open Text Html

/-! ### NUL characters -/

/-- What the removal of NUL characters does outside the sealed elements of a document. -/
def nulDropping : Edit where
  attrs _ attrs := attrs.map (Attr.mapValue Shield.dropNul)
  text := Shield.dropNul

def Element.withoutNul (e : Element) : Element :=
  ⟨e.name, e.attrs.map (Attr.mapValue Shield.dropNul), Shield.dropNul e.content⟩

/-- A document without its NUL characters. -/
def withoutNul (d : List (Span Element)) : List (Span Element) :=
  mapSealed Element.withoutNul (edit nulDropping d)

theorem nul_not_mem_dropNul (s : List Char) : '\x00' ∉ Shield.dropNul s := by
  simp [Shield.dropNul]

theorem mem_of_mem_dropNul {s : List Char} {c : Char} (h : c ∈ Shield.dropNul s) : c ∈ s :=
  (List.mem_filter.1 h).1

theorem piecewise_dropNul : Piecewise Shield.dropNul where
  append u v _ := dropNul_append u v
  fixed _ _ hn := dropNul_of_not_mem hn
  mem _ _ hc := .inl (mem_of_mem_dropNul hc)

variable {d : List (Span Element)}

/-- There are no NUL characters in the comments of a document anyway. -/
theorem withoutNul_eq (hd : WellFormed d) : withoutNul d = mapText Shield.dropNul d := by
  rw [withoutNul, mapSealed, edit, List.map_map, mapText]
  refine List.map_congr_left fun s hs => ?_
  obtain ⟨t, a⟩ := s
  have ht : Tag.WellFormed t := (hd _ hs).tag
  cases t with
  | comment u =>
    have hu : Shield.dropNul u = u := dropNul_of_not_mem fun hm => (ht _ hm).2.2.2 rfl
    simp [Tag.mapText, Tag.edit, Tag.map, nulDropping, hu]
  | _ => rfl

theorem dropNul_text (hd : WellFormed d) : Shield.dropNul (text d) = text (withoutNul d) := by
  rw [piecewise_dropNul.text hd, withoutNul_eq hd]

theorem withoutNul_wellFormed (hd : WellFormed d) : WellFormed (withoutNul d) :=
  withoutNul_eq hd ▸ piecewise_dropNul.mapText_wellFormed hd

theorem nulFree_withoutNul (hd : WellFormed d) : NulFree (withoutNul d) := by
  intro s hs
  obtain ⟨s', hs', rfl⟩ := List.mem_map.1 hs
  obtain ⟨⟨t, a⟩, hm, rfl⟩ := List.mem_map.1 hs'
  refine ⟨?_, nul_not_mem_dropNul a⟩
  cases t with
  | opening n attrs =>
    intro x hx v hv
    obtain ⟨b, -, rfl⟩ := List.mem_map.1 hx
    obtain ⟨u, -, rfl⟩ := Option.map_eq_some_iff.1 hv
    exact nul_not_mem_dropNul u
  | sealed e =>
    have he : e.WellFormed := (hd _ hm).tag
    have htext := piecewise_dropNul.element_append he []
    rw [List.append_nil, dropNul_of_not_mem (s := []) (by simp), List.append_nil] at htext
    show '\x00' ∉ Written.text (e.mapText Shield.dropNul)
    rw [← htext]
    exact nul_not_mem_dropNul _
  | _ => trivial

/-! ### All passes -/

theorem dropNul_dropNul (s : List Char) : Shield.dropNul (Shield.dropNul s) = Shield.dropNul s :=
  dropNul_of_not_mem (nul_not_mem_dropNul s)

theorem around_dropNul (change : List Char → List Char) (s : List Char) :
    Shield.around change (Shield.dropNul s) = Shield.around change s := by
  simp only [Shield.around, Shield.parts, dropNul_dropNul]

/-- The first pass drops the NUL characters anyway. -/
theorem reduce_dropNul (s : List Char) : reduce (Shield.dropNul s) = reduce s := by
  have hfirst : Reduce.stripComments (Shield.dropNul s) = Reduce.stripComments s := around_dropNul _ s
  simp only [reduce, Reduction.all, List.foldl_cons, Reduction.apply, hfirst]

/-- A document without NUL characters, after all passes. -/
def passed {ε : Type} [Compactable ε] (d : List (Span ε)) : List (Span ε) :=
  edit hinting <| edit emptying <| mapSealed Compactable.compactScript <|
    mapSealed Compactable.compactStyle <| edit squeezing <| dropComments d

section

variable {ε : Type} [Compactable ε] {d : List (Span ε)}

/-- The attributes of the tags of a name, after all passes. -/
theorem attrsOf_passed (n : List Char) (d : List (Span ε)) : attrsOf n (passed d) =
    (attrsOf n d).map fun attrs => hinting.attrs n (emptying.attrs n (squeezing.attrs n attrs)) := by
  simp only [passed, attrsOf_edit, attrsOf_mapSealed, attrsOf_dropComments, List.map_map,
    Function.comp_def]

/-- A document without NUL characters that the passes can be followed on: it begins and ends with a tag
other than a comment, and no two of its keys are the same in the end. -/
structure Passable (d : List (Span ε)) : Prop where
  wellFormed : WellFormed d
  nulFree : NulFree d
  first : ∀ s t, d.head? = some s → s.tag ≠ .comment t
  last : ∃ d₀ t, d = d₀ ++ [⟨t, []⟩] ∧ ∀ s, t ≠ .comment s
  keys : (metaKeys (passed d)).Nodup

/-- All passes together, whatever follows the document. -/
theorem rewrites_passes (h : Passable d) : Rewrites reduce d (passed d) := by
  have hwf1 := h.wellFormed.dropComments
  have hnul1 := h.nulFree.dropComments
  have huncommented : Uncommented (dropComments d) := fun s hs => (mem_dropComments hs).2.1
  have hends : EndsWithTag (dropComments d) := by
    obtain ⟨d₀, t, rfl, ht⟩ := h.last
    rw [dropComments_append ht]
    exact ⟨_, _, rfl⟩
  have hwf2 := hwf1.edit sound_squeezing
  have hnul2 := hnul1.edit nulFree_squeezing
  have hwf3 := hwf2.mapSealed Compactable.wellFormed_style
  have hnul3 := hnul2.mapSealed Compactable.nul_style
  have hwf4 := hwf3.mapSealed Compactable.wellFormed_script
  have hnul4 := hnul3.mapSealed Compactable.nul_script
  have hwf5 := hwf4.edit sound_emptying
  have hnul5 := hnul4.edit nulFree_emptying
  have hkeys : (metaKeys (edit emptying <| mapSealed Compactable.compactScript <|
      mapSealed Compactable.compactStyle <| edit squeezing <| dropComments d)).Nodup := by
    have := h.keys
    rw [passed, metaKeys, attrsOf_edit] at this
    exact (congrArg (fun l => (l.filterMap keyOf).Nodup) (List.map_id _)).mp this
  exact ((((((rewrites_stripComments h.wellFormed h.nulFree h.first).comp
    (rewrites_collapseBlanks hwf1 hnul1 huncommented hends)).comp
    (Compactable.rewrites_style _ hwf2)).comp (Compactable.rewrites_script _ hwf3)).comp
    (rewrites_dropEmptyAttributes hwf4 hnul4)).comp (rewrites_dedupeMetas hwf5 hnul5 hkeys)).comp
    (rewrites_hintImages hwf5 hnul5)

end

/-- A reduced document. -/
def reduced (d : List (Span Element)) : List (Span Element) :=
  edit hinting <| edit emptying <| mapSealed Element.compactScript <| mapSealed Element.compactStyle <|
    edit squeezing <| dropComments <| withoutNul d

/-- A value after the removal of NUL characters and the collapse of white space. -/
def tidy (v : List Char) : List Char := collapse (Shield.dropNul v)

/-- What becomes of an attribute: its value is tidied, and it goes if nothing is left of that. -/
def Attr.reduced? (a : Attr) : Option Attr := (a.mapValue tidy).emptied?

theorem mem_tidy {v : List Char} {c : Char} (h : c ∈ tidy v) : c ∈ v ∨ c = ' ' :=
  (mem_collapse h).imp_left mem_of_mem_dropNul

theorem reduced_attrs (n : List Char) (attrs : List Attr) :
    emptying.attrs n (squeezing.attrs n (nulDropping.attrs n attrs)) =
      attrs.filterMap Attr.reduced? := by
  have hvalue : ∀ a : Attr, ((a.mapValue Shield.dropNul).mapValue collapse).emptied? = a.reduced? := by
    intro a
    obtain ⟨m, v⟩ := a
    cases v <;> rfl
  simp [emptying, squeezing, Edit.andThen, collapsing, joining, nulDropping, List.filterMap_map,
    Function.comp_def, hvalue]

/-- The attributes of the tags of a name, after the reduction. -/
theorem attrsOf_reduced (n : List Char) (d : List (Span Element)) :
    attrsOf n (reduced d) =
      (attrsOf n d).map fun attrs => hinting.attrs n (attrs.filterMap Attr.reduced?) := by
  simp only [reduced, withoutNul, attrsOf_edit, attrsOf_mapSealed, attrsOf_dropComments,
    List.map_map, Function.comp_def, reduced_attrs]

/-- Without quotation marks, a tidied value is there as a whole or goes. -/
theorem Attr.reduced?_value {n v : List Char} (h1 : '"' ∉ v) (h2 : '\'' ∉ v) (hv : tidy v ≠ []) :
    Attr.reduced? ⟨n, some v⟩ = some ⟨n, some (tidy v)⟩ := by
  have hmem : ∀ {c}, c ∉ v → c ≠ ' ' → c ∉ tidy v := fun h hc hm =>
    (mem_tidy hm).elim h hc
  obtain ⟨c, s, hs⟩ := List.exists_cons_of_ne_nil hv
  have hclean := cleanse_of_not_mem (hmem h1 (by decide)) (hmem h2 (by decide))
  rw [hs] at hclean ⊢
  simp only [reduced?, mapValue, emptied?, Option.map_some, hs, hclean]

theorem Attr.reduced?_empty {n v : List Char} (hn : n ≠ "alt".toList) (hv : tidy v = []) :
    Attr.reduced? ⟨n, some v⟩ = none := by
  simp only [reduced?, mapValue, emptied?, Option.map_some, hv, if_neg hn]

/-- A script or a stylesheet after the reduction. -/
def Element.reduced (e : Element) : Element := e.withoutNul.compactStyle.compactScript

theorem Element.reduced_name (e : Element) : e.reduced.name = e.name := by
  have hstyle : ∀ e : Element, e.compactStyle.name = e.name := by
    intro e
    unfold compactStyle
    split <;> rfl
  have hscript : ∀ e : Element, e.compactScript.name = e.name := by
    intro e
    unfold compactScript
    split <;> rfl
  rw [reduced, hscript, hstyle]
  rfl

theorem Element.reduced_attrs (e : Element) :
    e.reduced.attrs = e.attrs.map (Attr.mapValue Shield.dropNul) := by
  have hstyle : ∀ e : Element, e.compactStyle.attrs = e.attrs := by
    intro e
    unfold compactStyle
    split <;> rfl
  have hscript : ∀ e : Element, e.compactScript.attrs = e.attrs := by
    intro e
    unfold compactScript
    split <;> rfl
  rw [reduced, hscript, hstyle]
  rfl

/-- A tag after the reduction. -/
def Tag.reduced : Tag Element → Tag Element
  | declaration s => declaration s
  | comment s => comment s
  | opening n attrs => opening n (hinting.attrs n (attrs.filterMap Attr.reduced?))
  | closing n => closing n
  | sealed e => sealed e.reduced

/-- A tag and the text after it, after the reduction. -/
def Span.reduced (s : Span Element) : Span Element := ⟨s.tag.reduced, unlessBlank (tidy s.after)⟩

/-- A reduced document has no comments, and each of its tags and texts is reduced by itself. -/
theorem reduced_eq (d : List (Span Element)) : reduced d = (dropComments d).map Span.reduced := by
  have hdrop : dropComments (withoutNul d) = withoutNul (dropComments d) := by
    rw [withoutNul, ← mapSealed_dropComments, dropComments_edit rfl dropNul_append, withoutNul]
  have htag : ∀ t : Tag Element, (((((((t.edit nulDropping).map Element.withoutNul).edit squeezing).map
      Element.compactStyle).map Element.compactScript).edit emptying).edit hinting) = t.reduced := by
    intro t
    cases t with
    | opening n attrs =>
      show Tag.opening n (hinting.attrs n (emptying.attrs n (squeezing.attrs n (nulDropping.attrs n attrs)))) = _
      rw [reduced_attrs]
      rfl
    | _ => rfl
  rw [reduced, hdrop]
  simp only [withoutNul, mapSealed, edit, List.map_map]
  refine List.map_congr_left fun s _ => ?_
  simp only [Function.comp_def, htag]
  rfl

/-- The tags of a reduced document are the other tags of the document, each reduced. -/
theorem tags_reduced (d : List (Span Element)) : (reduced d).map Span.tag =
    ((d.map Span.tag).filter fun t => !(Part.tag t).isComment).map Tag.reduced := by
  rw [reduced_eq, ← tags_dropComments]
  simp [Span.reduced, Function.comp_def]

theorem mem_tags_reduced {t : Tag Element} (ht : ∀ s, t ≠ .comment s) (h : t ∈ d.map Span.tag) :
    t.reduced ∈ (reduced d).map Span.tag := by
  rw [tags_reduced]
  exact List.mem_map_of_mem (List.mem_filter.2 ⟨h, by simp [Part.isComment_tag ht]⟩)

theorem uncommented_reduced : ∀ s ∈ reduced d, ∀ t, s.tag ≠ .comment t := by
  intro s hs t ht
  rw [reduced_eq] at hs
  obtain ⟨s', hs', rfl⟩ := List.mem_map.1 hs
  obtain ⟨-, hcomment, -⟩ := mem_dropComments hs'
  cases htag : s'.tag with
  | comment u => exact hcomment u htag
  | _ =>
    rw [Span.reduced, htag] at ht
    cases ht

/-- A document that the passes can be followed on: it begins and ends with a tag other than a
comment, and no two of its keys are the same once it is reduced. -/
structure Reducible (d : List (Span Element)) : Prop where
  wellFormed : WellFormed d
  first : ∀ s t, d.head? = some s → s.tag ≠ .comment t
  last : ∃ d₀ t, d = d₀ ++ [⟨t, []⟩] ∧ ∀ s, t ≠ .comment s
  keys : (metaKeys (reduced d)).Nodup

theorem exists_tag_withoutNul (t : Tag Element) :
    ∃ t' : Tag Element, (t.edit nulDropping).map Element.withoutNul = t' ∧
      ((∀ s, t ≠ .comment s) → ∀ s, t' ≠ .comment s) := by
  refine ⟨_, rfl, fun h s hs => ?_⟩
  cases t with
  | comment u => exact h u rfl
  | _ => cases hs

theorem Reducible.passable (h : Reducible d) : Passable (withoutNul d) where
  wellFormed := withoutNul_wellFormed h.wellFormed
  nulFree := nulFree_withoutNul h.wellFormed
  first s t hs := by
    rw [withoutNul, mapSealed, edit, List.head?_map, List.head?_map, Option.map_map] at hs
    obtain ⟨s', hs', rfl⟩ := Option.map_eq_some_iff.1 hs
    obtain ⟨_, rfl, hkeep⟩ := exists_tag_withoutNul s'.tag
    exact hkeep (fun u => h.first s' u hs') t
  last := by
    obtain ⟨d₀, t, rfl, ht⟩ := h.last
    obtain ⟨t', ht', hkeep⟩ := exists_tag_withoutNul t
    exact ⟨withoutNul d₀, t', by simp [withoutNul, ← ht', nulDropping, Shield.dropNul], hkeep ht⟩
  keys := h.keys

/-- What the passes make of a document without its NUL characters, they make of the document. -/
theorem exists_reduce_eq {ε : Type} [Compactable ε] {s : List Char} {d : List (Span ε)}
    (hs : Shield.dropNul s = text d) (h : Passable d) (v : List Char) :
    ∃ w, reduce (s ++ v) = text (passed d) ++ w ∧ (v = [] → w = []) := by
  obtain ⟨w, hw, hnil⟩ := rewrites_passes h (Shield.dropNul v)
  refine ⟨w, ?_, fun hv => hnil (by rw [hv]; rfl)⟩
  rw [← reduce_dropNul, dropNul_append, hs, hw]

/-- The reduction of a document, whatever follows it. -/
theorem rewrites_reduce (h : Reducible d) : Rewrites reduce d (reduced d) :=
  exists_reduce_eq (dropNul_text h.wellFormed) h.passable

/-- The reduction edits each tag and each text of a document by itself. -/
theorem reduce_text (h : Reducible d) : reduce (text d) = text (reduced d) := (rewrites_reduce h).apply

theorem reduced_wellFormed (hd : WellFormed d) : WellFormed (reduced d) := by
  have h1 := (withoutNul_wellFormed hd).dropComments.edit sound_squeezing
  have h2 := h1.mapSealed (f := Element.compactStyle) fun _ => Element.compactStyle_wellFormed
  have h3 := h2.mapSealed (f := Element.compactScript) fun _ => Element.compactScript_wellFormed
  exact (h3.edit sound_emptying).edit sound_hinting

end PagePress.Markup
