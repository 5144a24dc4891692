import PagePress.Proofs.Document
import PagePress.Proofs.Reduce

/-!
The reduction of a page's document. The keys of its `meta` tags are fixed and all different, so no
tag is dropped, and the reduction edits each tag and each text by itself.
-/

namespace PagePress.Markup

open Text Html Document

/-! ### Keys -/

/-- The attributes of a tag after the reduction, apart from hints. -/
def reducedAttrs (attrs : List Attribute) : List Attr := (attrs.map attrOf).filterMap Attr.reduced?

/-- The key of a `meta` tag after the reduction. -/
def reducedKey (attrs : List Attribute) : Option (List Char) := keyOf (reducedAttrs attrs)

/-- A value that the reduction leaves as it is. -/
def isTidy (v : String) : Bool :=
  tidy v.toList == v.toList && !v.toList.isEmpty && !v.toList.contains '"' && !v.toList.contains '\''

theorem reduced?_fixed {n v : String} (h : isTidy v = true) :
    (attrOf (.fixed n v)).reduced? = some ⟨n.toList, some v.toList⟩ := by
  simp only [isTidy, Bool.and_eq_true, beq_iff_eq, Bool.not_eq_true', List.isEmpty_eq_false_iff,
    List.contains_eq_mem, decide_eq_false_iff_not] at h
  obtain ⟨⟨⟨h1, h2⟩, h3⟩, h4⟩ := h
  have hattr : attrOf (.fixed n v) = ⟨n.toList, some v.toList⟩ := by
    simp [attrOf, Attribute.fixed, Piece.textAll, Piece.text]
  rw [hattr, Attr.reduced?_value h3 h4 (by rwa [h1]), h1]

/-- A `content` attribute without quotes in it. -/
def IsContent (a : Attribute) : Prop :=
  ∃ v, attrOf a = ⟨"content".toList, some v⟩ ∧ '"' ∉ v ∧ '\'' ∉ v

theorem isContent_escaped (v : String) : IsContent (.escaped "content" v) := by
  refine ⟨escape v.toList, by simp [attrOf, Attribute.escaped, Piece.textAll, Piece.text], ?_, ?_⟩
  · exact fun hm => absurd (escape_marks _ hm).1 (by decide)
  · exact fun hm => (escape_marks _ hm).2 rfl

theorem isContent_fixed {v : String} (h : isTidy v = true) : IsContent (.fixed "content" v) := by
  simp only [isTidy, Bool.and_eq_true, Bool.not_eq_true', List.contains_eq_mem,
    decide_eq_false_iff_not] at h
  exact ⟨v.toList, by simp [attrOf, Attribute.fixed, Piece.textAll, Piece.text], h.1.2, h.2⟩

/-- The key of a tag outlives the reduction. -/
theorem reducedKey_keyed {name key : String} (hname : name ∈ Reduce.keyAttributes)
    (hkey : isTidy key = true) {content : Attribute} (hcontent : IsContent content) :
    reducedKey [.fixed name key, content] = some (lower key.toList) := by
  obtain ⟨v, hv, h1, h2⟩ := hcontent
  have hattrs : reducedAttrs [.fixed name key, content] =
      keyed name key (if tidy v = [] then none else some (tidy v)) := by
    simp only [reducedAttrs, List.map_cons, List.map_nil, hv]
    rw [List.filterMap_cons_some (reduced?_fixed hkey)]
    by_cases htidy : tidy v = []
    · rw [List.filterMap_cons_none (Attr.reduced?_empty (by decide) htidy), if_pos htidy]
      rfl
    · rw [List.filterMap_cons_some (Attr.reduced?_value h1 h2 htidy), if_neg htidy]
      rfl
  simp only [isTidy, Bool.and_eq_true, Bool.not_eq_true', List.isEmpty_eq_false_iff,
    List.contains_eq_mem, decide_eq_false_iff_not] at hkey
  have hmem : ∀ {c}, c ∉ v → c ≠ ' ' → c ∉ tidy v := fun h hc hm => (mem_tidy hm).elim h hc
  rw [reducedKey, hattrs]
  refine keyOf_keyed hname hkey.1.1.2 hkey.1.2 fun u hu => ?_
  split at hu
  · cases hu
  · obtain rfl := Option.some.inj hu
    exact ⟨hmem h1 (by decide), hmem h2 (by decide)⟩

/-- The tag with the encoding has no key. -/
theorem reducedKey_charset : reducedKey [.fixed "charset" "UTF-8"] = none := by
  have hattrs : reducedAttrs [.fixed "charset" "UTF-8"] = [⟨"charset".toList, some "UTF-8".toList⟩] := by
    have := reduced?_fixed (n := "charset") (v := "UTF-8") (by decide)
    simp [reducedAttrs, this]
  have hnone : findAll Reduce.keyAttribute?
      (openingText "meta".toList [⟨"charset".toList, some "UTF-8".toList⟩]) = [] := by
    have htext : openingText "meta".toList [⟨"charset".toList, some "UTF-8".toList⟩] =
        '<' :: 'm' :: 'e' :: 't' :: 'a' :: ' ' :: 'c' :: 'h' :: 'a' :: 'r' :: 's' :: 'e' :: 't' ::
          '=' :: '"' :: "UTF-8\">".toList := by
      simp [openingText, Attr.text]
    rw [findAll, segments, htext, values_of_none (keyAttribute?_of_first (by decide) (by decide) _ _),
      values_of_none (keyAttribute?_of_first (by decide) (by decide) _ _),
      values_of_none (keyAttribute?_of_first (by decide) (by decide) _ _),
      values_of_none (keyAttribute?_of_first (by decide) (by decide) _ _),
      values_of_none (keyAttribute?_of_first (by decide) (by decide) _ _),
      values_of_none (keyAttribute?_of_first (by decide) (by decide) _ _),
      values_of_none (keyAttribute?_of_first (by decide) (by decide) _ _),
      values_of_none (keyAttribute?_of_word (by decide) _)]
    rw [values_of_none (keyAttribute?_of_first (by decide) (by decide) _ _),
      values_of_none (keyAttribute?_of_first (by decide) (by decide) _ _),
      values_of_none (keyAttribute?_of_first (by decide) (by decide) _ _),
      values_of_none (keyAttribute?_of_first (by decide) (by decide) _ _),
      values_of_none (keyAttribute?_of_first (by decide) (by decide) _ _),
      values_of_none (keyAttribute?_of_first (by decide) (by decide) _ _),
      values_of_none (keyAttribute?_of_first (by decide) (by decide) _ _)]
    exact values_of_count (by decide) (by decide) _
  rw [reducedKey, hattrs, keyOf, Reduce.metaKey?, hnone]
  rfl

/-- The keys of the tags that every document has. -/
def layoutKeys : List String :=
  ["viewport", "X-UA-Compatible", "Content-Security-Policy", "description", "generator", "og:title",
    "og:description", "og:type", "twitter:card", "twitter:title", "twitter:description"]

/-- The key of the tag that an advertiser wants. -/
def accountKey : String := "google-adsense-account"

theorem treeAttrs_metaNode (key value : String) (content : Attribute) :
    treeAttrs "meta" (metaNode key value content) = [[.fixed key value, content]] := by
  simp [metaNode, nodeAttrs, Node.line, Node.fixed]

theorem keys_metadata (h : DocumentHead) :
    (treeAttrs "meta" (metadata h)).filterMap reducedKey =
      layoutKeys.map fun key => lower key.toList := by
  have hcharset : treeAttrs "meta" [.line 2, .void "meta" [.fixed "charset" "UTF-8"]] =
      [[.fixed "charset" "UTF-8"]] := by simp [nodeAttrs, Node.line, Node.fixed]
  have htitle : treeAttrs "meta" [.line 2, .element "title" [] [.escaped h.title]] = [] := by
    simp +decide [nodeAttrs, Node.line, Node.fixed, Node.escaped]
  have hcomment : ∀ s, treeAttrs "meta" [.line 2, .comment s] = [] := by
    simp [nodeAttrs, Node.line, Node.fixed]
  simp only [metadata, treeAttrs_append, treeAttrs_metaNode, hcharset, htitle, hcomment]
  simp only [List.append_nil, List.cons_append, List.nil_append]
  rw [List.filterMap_cons_none reducedKey_charset,
    List.filterMap_cons_some (reducedKey_keyed (by decide) (by decide) (isContent_fixed (by decide))),
    List.filterMap_cons_some (reducedKey_keyed (by decide) (by decide) (isContent_fixed (by decide))),
    List.filterMap_cons_some (reducedKey_keyed (by decide) (by decide) (isContent_escaped _)),
    List.filterMap_cons_some (reducedKey_keyed (by decide) (by decide) (isContent_escaped _)),
    List.filterMap_cons_some (reducedKey_keyed (by decide) (by decide) (isContent_fixed (by decide))),
    List.filterMap_cons_some (reducedKey_keyed (by decide) (by decide) (isContent_escaped _)),
    List.filterMap_cons_some (reducedKey_keyed (by decide) (by decide) (isContent_escaped _)),
    List.filterMap_cons_some (reducedKey_keyed (by decide) (by decide) (isContent_fixed (by decide))),
    List.filterMap_cons_some (reducedKey_keyed (by decide) (by decide) (isContent_fixed (by decide))),
    List.filterMap_cons_some (reducedKey_keyed (by decide) (by decide) (isContent_escaped _)),
    List.filterMap_cons_some (reducedKey_keyed (by decide) (by decide) (isContent_escaped _))]
  rfl

theorem nodup_keys : ((layoutKeys ++ [accountKey]).map fun key => lower key.toList).Nodup := by
  have hlower : (layoutKeys ++ [accountKey]).map (fun key => lower key.toList) =
      (layoutKeys ++ [accountKey]).map (fun key => key.toList.map Char.toLower) := by
    refine List.map_congr_left fun key hkey => lower_of_ascii ?_
    have : ∀ key ∈ layoutKeys ++ [accountKey], ∀ c ∈ key.toList, c.toNat < 0x80 := by decide
    exact this key hkey
  rw [hlower]
  decide

/-! ### Documents -/

namespace Outline

/-- What is inserted in a document has no `meta` tags but one of an advertiser in the head. -/
structure FewMetas (o : Outline) : Prop where
  headSnippets : ∃ id, List.Sublist (treeAttrs "meta" o.headSnippets)
    [[.fixed "name" accountKey, .escaped "content" id]]
  body : treeAttrs "meta" o.body = []
  bodySnippets : treeAttrs "meta" o.bodySnippets = []

variable {o : Outline}

theorem treeAttrs_inserted (n : String) (ns : List Node) :
    List.Sublist (treeAttrs n (inserted ns)) (treeAttrs n ns) := by
  unfold inserted
  split
  · exact List.nil_sublist _
  · simp [nodeAttrs, Node.line, Node.fixed]

theorem attrsOf_document (n : String) (o : Outline) :
    attrsOf n.toList o.document = (treeAttrs n o.nodes).map (List.map attrOf) := by
  rw [document, attrsOf_spans, docParts, List.filterMap_cons_none rfl, attrsOf_treeParts]

theorem metas_nodes (h : o.FewMetas) :
    treeAttrs "meta" o.nodes = treeAttrs "meta" (metadata o.head) ++ treeAttrs "meta" (inserted o.headSnippets) := by
  have hsnippets : treeAttrs "meta" (inserted o.bodySnippets) = [] :=
    List.sublist_nil.1 (h.bodySnippets ▸ treeAttrs_inserted "meta" o.bodySnippets)
  have hlinks : treeAttrs "meta" (links o.head) = [] := by
    unfold links
    split <;> simp [nodeAttrs, Node.line, Node.fixed]
  have hscript : treeAttrs "meta" o.scriptNodes = [] := by
    unfold scriptNodes
    split <;> simp +decide [nodeAttrs, Node.line, Node.fixed]
  have hbody : treeAttrs "meta" o.bodyNodes = [] := by
    simp [bodyNodes, nodeAttrs, Node.line, Node.fixed, h.body, hscript, hsnippets]
  simp +decide [nodes, children, headNodes, nodeAttrs, Node.line, Node.fixed, hlinks, hbody]

/-- No two keys of a page's document are the same. -/
theorem nodup_metaKeys (h : o.FewMetas) : (metaKeys (reduced o.document)).Nodup := by
  have hreduced : metaKeys (reduced o.document) =
      (treeAttrs "meta" o.nodes).filterMap reducedKey := by
    rw [metaKeys, attrsOf_reduced, attrsOf_document, List.map_map, List.filterMap_map]
    rfl
  obtain ⟨id, hid⟩ := h.headSnippets
  have haccount : List.Sublist ((treeAttrs "meta" (inserted o.headSnippets)).filterMap reducedKey)
      [lower accountKey.toList] := by
    have := ((treeAttrs_inserted "meta" o.headSnippets).trans hid).filterMap reducedKey
    rwa [List.filterMap_cons_some
      (reducedKey_keyed (by decide) (by decide) (isContent_escaped id))] at this
  rw [hreduced, metas_nodes h, List.filterMap_append, keys_metadata]
  have hall := nodup_keys
  rw [List.map_append] at hall
  exact hall.sublist (haccount.append_left _)

/-- The reduction of a page's document can be followed tag by tag. -/
theorem reducible_document (h : o.WellFormed) (hm : o.FewMetas) : Reducible o.document where
  wellFormed := h.wellFormed_document
  first s t hs := by
    obtain rfl : _ = s := Option.some.inj hs
    rintro ⟨⟩
  last := by
    refine ⟨spans (.tag (.declaration "DOCTYPE html".toList) :: (nodeParts (.line 0) ++
      (.tag (.opening "html".toList ([.fixed "lang" "en"].map attrOf)) :: treeParts o.children))),
      .closing "html".toList, ?_, by rintro _ ⟨⟩⟩
    rw [document, docParts, nodes, treeParts, treeParts, nodeParts_element (by decide), treeParts,
      List.append_nil, ← List.cons_append, ← List.cons_append, ← List.append_assoc, spans_append_tag]
    rfl
  keys := nodup_metaKeys hm

end Outline

end PagePress.Markup
