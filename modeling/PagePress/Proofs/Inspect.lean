import PagePress.Proofs.Document.Reducible
import PagePress.Proofs.Inspect.Required
import PagePress.Proofs.Inspect.Tags

/-!
The inspection of a well-formed document. A document that has what every document needs, is
balanced and is accessible has no findings but those about its size and its addresses
(`inspect_text`), and the reduction keeps it so.
-/

namespace PagePress.Markup

open Text Html

/-- What the inspection asks of a document. -/
structure Inspectable (d : List (Span Element)) : Prop where
  wellFormed : WellFormed d
  first : ∀ s t, d.head? = some s → s.tag ≠ .comment t
  doctype : .declaration "DOCTYPE html".toList ∈ d.map Span.tag
  html : attrsOf "html".toList d ≠ []
  head : [] ∈ attrsOf "head".toList d
  body : [] ∈ attrsOf "body".toList d
  title : [] ∈ attrsOf "title".toList d
  viewport : ∃ attrs, ⟨"name".toList, some "viewport".toList⟩ :: attrs ∈ attrsOf "meta".toList d
  balanced : Balanced (d.map Span.tag)
  accessible : ∀ n, ∀ attrs ∈ attrsOf n d, Accessible n attrs

variable {d : List (Span Element)}

/-! ### Markup -/

/-- What the inspection sees of a document. -/
def visible (d : List (Span Element)) : List (Span Element) := mapSealed Element.emptied (dropComments d)

theorem Element.emptied_wellFormed {e : Element} (h : e.WellFormed) : e.emptied.WellFormed :=
  ⟨h.name, h.attrs, by simp [emptied]⟩

theorem wellFormed_visible (hd : WellFormed d) : WellFormed (visible d) :=
  hd.dropComments.mapSealed fun _ => Element.emptied_wellFormed

theorem markupOnly_text (hd : WellFormed d) (hfirst : ∀ s t, d.head? = some s → s.tag ≠ .comment t) :
    Inspect.markupOnly (text d) = text (visible d) := by
  have hr := takesComments_inspect
  have hpass : ∀ e : Element, e.WellFormed → Passes Inspect.anyComment? (Written.text e) := fun e he =>
    ((hr.passes_opening he.isName he.attrs).append (passes_text hr.contextFree hr.atMark he.content)).append
      (hr.passes_closing he.isName)
  rw [Inspect.markupOnly, (hr.rewrites hd hpass hfirst).apply, (rewrites_rawElement hd.dropComments).apply]
  rfl

theorem attrsOf_visible (n : List Char) (d : List (Span Element)) :
    attrsOf n (visible d) = attrsOf n d := by
  rw [visible, attrsOf_mapSealed, attrsOf_dropComments]

theorem content_visible : ∀ s ∈ visible d, ∀ e, s.tag = .sealed e → e.content = [] := by
  intro s hs e he
  obtain ⟨⟨t, a⟩, -, rfl⟩ := List.mem_map.1 hs
  cases t with
  | sealed e' =>
    obtain rfl : e'.emptied = e := Tag.sealed.inj he
    rfl
  | _ => cases he

/-- Comments have no part in lists of names, and a change of tags that keeps their names has none
either. -/
theorem flatMap_names {f : Tag Element → Tag Element} {g : Tag Element → List (List Char)}
    (hf : ∀ t, g (f t) = g t) (hg : ∀ s, g (.comment s) = []) (ts : List (Tag Element)) :
    ((ts.filter fun t => !(Part.tag t).isComment).map f).flatMap g = ts.flatMap g := by
  induction ts with
  | nil => rfl
  | cons t ts ih =>
    have hrest : ∀ t : Tag Element, (Part.tag t).isComment = false →
        (((t :: ts).filter fun t => !(Part.tag t).isComment).map f).flatMap g = g t ++ ts.flatMap g := by
      intro t ht
      rw [List.filter_cons_of_pos (by simp [ht]), List.map_cons, List.flatMap_cons, hf, ih]
    cases t with
    | comment s =>
      rw [List.filter_cons_of_neg (by simp [Part.isComment]), List.flatMap_cons, hg, ih]
      rfl
    | _ => exact hrest _ rfl

theorem Balanced.of_tags {ts : List (Tag Element)} (h : Balanced ts) {f : Tag Element → Tag Element}
    (ho : ∀ t, (f t).opened = t.opened) (hc : ∀ t, (f t).closed = t.closed) :
    Balanced ((ts.filter fun t => !(Part.tag t).isComment).map f) := by
  intro n
  rw [flatMap_names ho (fun _ => rfl), flatMap_names hc (fun _ => rfl)]
  exact h n

theorem balanced_visible (h : Balanced (d.map Span.tag)) : Balanced ((visible d).map Span.tag) := by
  have htags : (visible d).map Span.tag = ((dropComments d).map Span.tag).map (Tag.map Element.emptied) := by
    simp [visible, mapSealed]
  rw [htags, tags_dropComments]
  refine h.of_tags (fun t => ?_) fun t => ?_
  · cases t <;> rfl
  · cases t <;> rfl

/-! ### Findings -/

theorem opensWith_tag {m : String} (hm : isName m.toList = true) : OpensWith [m] (Inspect.tag? m) where
  contextFree _ _ := rfl
  names := by simpa using hm
  none s h := by simp [Inspect.tag?, h]

theorem takes_tag {m : String} (hm : isName m.toList = true) {attrs : List Attr}
    (ha : ∀ a ∈ attrs, a.WellFormed) :
    Takes (Inspect.tag? m) (openingText m.toList attrs) (openingText m.toList attrs) := by
  refine takes_of_eq (opensWith_tag hm).contextFree (by simp [openingText]) fun v => ?_
  obtain ⟨k, hk, htext, -⟩ := openTag?_gives (m := m) hm rfl ha (v := v) rfl
  exact ⟨k, by simp only [Inspect.tag?, hk, Option.map_some, htext], htext⟩

/-- The tags of a name are found with their texts. -/
theorem findAll_tag {m : String} (hm : isName m.toList = true) (hs : m.toList ∉ sealedNames)
    (hd : WellFormed d) :
    findAll (Inspect.tag? m) (text d) = (attrsOf m.toList d).map (openingText m.toList) := by
  have hr := opensWith_tag hm
  let taken : Tag Element → Option (List Char) := fun t => (t.attrsOf? m.toList).map (openingText m.toList)
  have hread : ReadBy (Inspect.tag? m) taken d := by
    refine ⟨hr.contextFree, hr.atMark, fun s hs' => ?_, fun s hs' => not_mem_of_textChars (hd s hs').after⟩
    obtain ⟨t, a⟩ := s
    have ht := (hd _ hs').tag
    cases t with
    | declaration t =>
      obtain rfl := ht
      exact hr.passes_declaration (by decide)
    | comment t => exact hr.passes_comment fun c hc => (ht c hc).1
    | opening n attrs =>
      by_cases hn : n = m.toList
      · subst hn
        simp only [taken, Tag.attrsOf?, if_true, Option.map_some]
        exact takes_tag hm ht.2.2
      · simp only [taken, Tag.attrsOf?, if_neg hn, Option.map_none]
        exact hr.passes_opening ht.1 (by simpa using Ne.symm hn) ht.2.2
    | closing n => exact hr.passes_closing ht
    | sealed e =>
      have ht : e.WellFormed := ht
      refine hr.passes_element ht fun m' hm' he => hs ?_
      rw [List.mem_singleton.1 hm'] at he
      exact he ▸ ht.name
  rw [hread.findAll_text, attrsOf, List.map_filterMap]

theorem missing_eq_nil (h : Inspectable d) : Inspect.missing (text d) = [] := by
  have hdoctype : containsText "<!doctype html>" (lower (text d)) = true := by
    obtain ⟨s, hs, ht⟩ := List.mem_map.1 h.doctype
    obtain ⟨u, w, hw⟩ := exists_text hs
    rw [hw, ht]
    exact containsText_lower (by decide) (by decide) u w
  have hhtml : containsText "<html" (lower (text d)) = true :=
    containsText_tagStart (by decide) (by decide) h.html
  have hhead : containsText "<head>" (lower (text d)) = true :=
    containsText_tag (by decide) (by decide) h.head
  have hbody : containsText "<body>" (lower (text d)) = true :=
    containsText_tag (by decide) (by decide) h.body
  have htitle : containsText "<title>" (lower (text d)) = true :=
    containsText_tag (by decide) (by decide) h.title
  have hviewport : occurs (fun _ s => Inspect.namesViewport s) none (text d) = true := by
    obtain ⟨attrs, hattrs⟩ := h.viewport
    obtain ⟨s, hs, ht⟩ := exists_opening hattrs
    obtain ⟨u, w, hw⟩ := exists_text hs
    have hwf : Tag.WellFormed s.tag := (h.wellFormed s hs).tag
    rw [ht] at hwf
    rw [hw, ht]
    exact occurs_of_suffix (fun _ => namesViewport_opening hwf.2.2 w) ⟨u, rfl⟩ none
  simp only [Inspect.missing, Inspect.required, List.filterMap_cons, List.filterMap_nil, hdoctype,
    hhtml, hhead, hbody, htitle, hviewport, if_true, List.append_nil]

/-- A list in which nothing is at fault gives no findings. -/
theorem filterMap_zipIdx_eq_nil {α β : Type} {f : α × Nat → Option β} {as : List α} {i : Nat}
    (h : ∀ a ∈ as, ∀ i, f (a, i) = none) : (as.zipIdx i).filterMap f = [] := by
  rw [List.filterMap_eq_nil_iff]
  rintro ⟨a, j⟩ ha
  exact h a (List.fst_mem_of_mem_zipIdx ha) j

theorem undescribed_eq_nil (hd : WellFormed d) (ha : ∀ n, ∀ attrs ∈ attrsOf n d, Accessible n attrs) :
    Inspect.undescribed (text d) = [] := by
  rw [Inspect.undescribed, findAll_tag (by decide) (by decide) hd]
  refine filterMap_zipIdx_eq_nil fun t ht i => ?_
  obtain ⟨attrs, hattrs, rfl⟩ := List.mem_map.1 ht
  obtain ⟨a, hmem, hn⟩ := (ha _ attrs hattrs).image rfl
  have := hasAttribute_of_mem (m := "alt") (by decide) hmem hn "img".toList
  simp only [this, if_true]

theorem unlabelled_eq_nil (hd : WellFormed d) (ha : ∀ n, ∀ attrs ∈ attrsOf n d, Accessible n attrs) :
    Inspect.unlabelled (text d) = [] := by
  rw [Inspect.unlabelled, findAll_tag (by decide) (by decide) hd]
  refine filterMap_zipIdx_eq_nil fun t ht i => ?_
  obtain ⟨attrs, hattrs, rfl⟩ := List.mem_map.1 ht
  obtain ⟨s, hs, htag⟩ := exists_opening hattrs
  have hwf : Tag.WellFormed s.tag := (hd s hs).tag
  rw [htag] at hwf
  have hfilled := filled_placeholder hwf.2.2 ((ha _ attrs hattrs).input rfl)
  simp only [Inspect.isUnlabelled, hfilled, Bool.not_true, Bool.and_false, Bool.false_and,
    Bool.false_eq_true, if_false]

/-- What the inspection of such a document may find. -/
theorem inspect_text (h : Inspectable d) :
    inspect (text d) = Inspect.oversize (text d) ++ Inspect.refusedAddresses (text d) := by
  have hwf := wellFormed_visible h.wellFormed
  have haccessible : ∀ n, ∀ attrs ∈ attrsOf n (visible d), Accessible n attrs := fun n attrs hattrs =>
    h.accessible n attrs (attrsOf_visible n d ▸ hattrs)
  simp only [inspect, markupOnly_text h.wellFormed h.first, missing_eq_nil h,
    unbalanced_eq_nil hwf content_visible (balanced_visible h.balanced),
    undescribed_eq_nil hwf haccessible, unlabelled_eq_nil hwf haccessible, List.nil_append,
    List.append_nil]

/-! ### Reduced documents -/

theorem Labelled.reduced {attrs : List Attr} (hwf : ∀ a ∈ attrs, a.WellFormed) (h : Labelled attrs) :
    Labelled (attrs.filterMap Attr.reduced?) := by
  have hkeep : ∀ a ∈ attrs, ∃ v', a.reduced? = some ⟨a.name, v'⟩ ∧ v'.isSome = a.value.isSome ∧
      ∀ v, v' = some v → '\'' ∉ v ∧ ∃ c ∈ v, c ≠ '\x00' := by
    intro a ha
    obtain ⟨n, v⟩ := a
    cases v with
    | none => exact ⟨none, rfl, rfl, by rintro _ ⟨⟩⟩
    | some v =>
      obtain ⟨hquote, c, hc, hne⟩ := h.values _ ha v rfl
      have hmark : '"' ∉ v := fun hm => absurd ((hwf _ ha).value v rfl _ hm) (by decide)
      have hdrop : c ∈ Shield.dropNul v := List.mem_filter.2 ⟨hc, by simpa using hne⟩
      have htidy : tidy v ≠ [] := collapse_ne_nil (List.ne_nil_of_mem hdrop)
      refine ⟨some (tidy v), Attr.reduced?_value hmark hquote htidy, rfl, ?_⟩
      rintro _ ⟨⟩
      refine ⟨fun hm => (mem_tidy hm).elim hquote (by decide), ?_⟩
      obtain ⟨d, w, hd⟩ := List.exists_cons_of_ne_nil htidy
      refine ⟨d, by simp [hd], ?_⟩
      rintro rfl
      rcases mem_collapse (s := Shield.dropNul v) (c := '\x00') (by rw [← tidy, hd]; simp) with hm | hm
      · exact nul_not_mem_dropNul v hm
      · exact absurd hm (by decide)
  refine ⟨?_, fun b hb v hv => ?_⟩
  · obtain ⟨a, ha, hn, hv⟩ := h.placeholder
    obtain ⟨v', hr, hsome, -⟩ := hkeep a ha
    exact ⟨_, List.mem_filterMap.2 ⟨a, ha, hr⟩, hn, hsome.trans hv⟩
  · obtain ⟨a, ha, hr⟩ := List.mem_filterMap.1 hb
    obtain ⟨v', hr', -, hvalues⟩ := hkeep a ha
    obtain rfl := Option.some.inj (hr.symm.trans hr')
    exact hvalues v hv

theorem Accessible.reduced {n : List Char} {attrs : List Attr} (hwf : ∀ a ∈ attrs, a.WellFormed)
    (h : Accessible n attrs) : Accessible n (hinting.attrs n (attrs.filterMap Attr.reduced?)) where
  image hn := by
    obtain ⟨a, ha, hname⟩ := h.image hn
    have hkeep : ∃ b, a.reduced? = some b ∧ b.name = "alt".toList := by
      obtain ⟨m, v⟩ := a
      obtain rfl : m = "alt".toList := hname
      cases v with
      | none => exact ⟨_, rfl, rfl⟩
      | some v =>
        cases htidy : tidy v with
        | nil =>
          refine ⟨⟨"alt".toList, some []⟩, ?_, rfl⟩
          simp only [Attr.reduced?, Attr.mapValue, Attr.emptied?, Option.map_some, htidy, if_true]
        | cons c w =>
          refine ⟨⟨"alt".toList, some (cleanse (tidy v))⟩, ?_, rfl⟩
          simp only [Attr.reduced?, Attr.mapValue, Attr.emptied?, Option.map_some, htidy]
    obtain ⟨b, hb, hname⟩ := hkeep
    refine ⟨b, ?_, hname⟩
    simp only [hinting, if_pos hn, hinted, List.mem_append]
    exact .inl (.inl (List.mem_filterMap.2 ⟨a, ha, hb⟩))
  input hn := by
    have : n ≠ "img".toList := by
      rw [hn]
      decide
    simp only [hinting, if_neg this]
    exact (h.input hn).reduced hwf

theorem opened_reduced (t : Tag Element) : t.reduced.opened = t.opened := by
  cases t with
  | sealed e => exact congrArg (fun n => [n]) (Element.reduced_name e)
  | _ => rfl

theorem closed_reduced (t : Tag Element) : t.reduced.closed = t.closed := by
  cases t with
  | sealed e => exact congrArg (fun n => [n]) (Element.reduced_name e)
  | _ => rfl

/-- Tags without attributes stay. -/
theorem nil_mem_attrsOf_reduced {n : List Char} (hn : n ≠ "img".toList) (h : [] ∈ attrsOf n d) :
    [] ∈ attrsOf n (reduced d) := by
  rw [attrsOf_reduced]
  refine List.mem_map.2 ⟨[], h, ?_⟩
  simp only [List.filterMap_nil, hinting, if_neg hn]

/-- The reduction keeps what the inspection asks for. -/
theorem Inspectable.reduced (h : Inspectable d) : Inspectable (reduced d) where
  wellFormed := reduced_wellFormed h.wellFormed
  first s t hs := uncommented_reduced s (List.mem_of_mem_head? hs) t
  doctype := mem_tags_reduced (by rintro _ ⟨⟩) h.doctype
  html := by
    rw [attrsOf_reduced]
    simpa using h.html
  head := nil_mem_attrsOf_reduced (by decide) h.head
  body := nil_mem_attrsOf_reduced (by decide) h.body
  title := nil_mem_attrsOf_reduced (by decide) h.title
  viewport := by
    obtain ⟨attrs, hattrs⟩ := h.viewport
    refine ⟨attrs.filterMap Attr.reduced?, ?_⟩
    rw [attrsOf_reduced]
    refine List.mem_map.2 ⟨_, hattrs, ?_⟩
    have hname : Attr.reduced? ⟨"name".toList, some "viewport".toList⟩ =
        some ⟨"name".toList, some "viewport".toList⟩ := by
      have := reduced?_fixed (n := "name") (v := "viewport") (by decide)
      simpa [attrOf, Attribute.fixed, Piece.textAll, Piece.text] using this
    rw [List.filterMap_cons_some hname]
    simp only [hinting, if_neg (show "meta".toList ≠ "img".toList by decide)]
  balanced := by
    rw [tags_reduced]
    exact h.balanced.of_tags opened_reduced closed_reduced
  accessible n attrs hattrs := by
    rw [attrsOf_reduced] at hattrs
    obtain ⟨attrs', hattrs', rfl⟩ := List.mem_map.1 hattrs
    obtain ⟨s, hs, ht⟩ := exists_opening hattrs'
    have hwf : Tag.WellFormed s.tag := (h.wellFormed s hs).tag
    rw [ht] at hwf
    exact (h.accessible n attrs' hattrs').reduced hwf.2.2

end PagePress.Markup
