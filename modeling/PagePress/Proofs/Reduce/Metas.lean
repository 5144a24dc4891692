import PagePress.Proofs.Reduce.Attributes
import PagePress.Proofs.Reduce.Images
import PagePress.Reduce.Metas

/-!
Metadata of documents. The keys of `meta` tags that hold a key, and perhaps a content without
quotes, are read off (`metaKey?_keyed`), and a document whose keys are all different keeps all its
tags when repeated metadata goes (`rewrites_dedupeMetas`).
-/

namespace PagePress.Markup

open Text Html

/-! ### Keys -/

theorem opensWith_meta : OpensWith ["meta"] Reduce.metaTag? where
  contextFree _ _ := rfl
  names := by decide
  none s h := by simp [Reduce.metaTag?, h]

/-- The key of a tag with some attributes. -/
def keyOf (attrs : List Attr) : Option (List Char) := Reduce.metaKey? (openingText "meta".toList attrs)

/-- The keys of the `meta` tags of a document. -/
def metaKeys {ε : Type} (d : List (Span ε)) : List (List Char) :=
  (attrsOf "meta".toList d).filterMap keyOf

/-- What the scan for `meta` tags takes. -/
def metasOnly {ε : Type} : Tag ε → Option (Option (List Char))
  | .opening n attrs => if n = "meta".toList then some (keyOf attrs) else none
  | _ => none

theorem takes_metaTag {attrs : List Attr} (h : ∀ a ∈ attrs, a.WellFormed) :
    Takes Reduce.metaTag? (openingText "meta".toList attrs) (keyOf attrs) := by
  refine takes_of_eq opensWith_meta.contextFree (by simp [openingText]) fun v => ?_
  obtain ⟨k, hk, ht, -⟩ := openTag?_gives (m := "meta") (by decide) rfl h (v := v) rfl
  refine ⟨k, ?_, ht⟩
  simp only [Reduce.metaTag?, hk, Option.map_some, ht]
  rfl

theorem readBy_metaTag {ε : Type} [Written ε] {saved : List (List Char)}
    {d : List (Span (Slot ε saved))} (hd : WellFormed d) :
    ReadBy Reduce.metaTag? metasOnly d where
  contextFree := opensWith_meta.contextFree
  atMark := opensWith_meta.atMark
  texts s hs := not_mem_of_textChars (hd s hs).after
  tags s hs := by
    obtain ⟨t, a⟩ := s
    have ht := (hd _ hs).tag
    cases t with
    | declaration t =>
      obtain rfl := ht
      exact opensWith_meta.passes_declaration (by decide)
    | comment t => exact opensWith_meta.passes_comment fun c hc => (ht c hc).1
    | opening n a =>
      by_cases hn : n = "meta".toList
      · subst hn
        exact takes_metaTag ht.2.2
      · show Reads _ _ (if _ then _ else _)
        rw [if_neg hn]
        refine opensWith_meta.passes_opening ht.1 (fun m hm he => hn ?_) ht.2.2
        rw [← he, List.mem_singleton.1 hm]
    | closing n => exact opensWith_meta.passes_closing ht
    | sealed e => exact opensWith_meta.passes_slot e

theorem keepFirst_plain (seen : List (List Char)) (u : List Char)
    (segs : List (Segment (Option (List Char)))) :
    Reduce.keepFirst seen (u.map .plain ++ segs) = u ++ Reduce.keepFirst seen segs := by
  induction u with
  | nil => rfl
  | cons c u ih => exact congrArg (c :: ·) ih

/-- A tag whose key was not seen stays. -/
theorem keepFirst_tag {ε : Type} [Written ε] (seen : List (List Char)) (t : Tag ε)
    (h : ∀ k, metasOnly t = some (some k) → k ∉ seen) (segs : List (Segment (Option (List Char)))) :
    Reduce.keepFirst seen (tagSegments t.text (metasOnly t) ++ segs) =
      t.text ++ Reduce.keepFirst (((metasOnly t).getD none).toList ++ seen) segs := by
  cases hm : metasOnly t with
  | none => exact keepFirst_plain seen _ segs
  | some o =>
    cases o with
    | none => rfl
    | some k =>
      have hk : seen.contains k = false := by
        have := h k hm
        simpa using this
      show (if seen.contains k then _ else _) = _
      rw [hk]
      rfl

/-- Tags with different keys all stay. -/
theorem exists_keepFirst {ε : Type} [Written ε] {d : List (Span ε)} (seen : List (List Char))
    (hnodup : (metaKeys d).Nodup) (hseen : ∀ k ∈ metaKeys d, k ∉ seen)
    (segs : List (Segment (Option (List Char)))) :
    ∃ seen', Reduce.keepFirst seen
        (d.flatMap (fun s => tagSegments s.tag.text (metasOnly s.tag) ++ s.after.map .plain) ++ segs) =
      text d ++ Reduce.keepFirst seen' segs := by
  induction d generalizing seen with
  | nil => exact ⟨seen, rfl⟩
  | cons s d ih =>
    obtain ⟨t, a⟩ := s
    have hkeys : metaKeys (⟨t, a⟩ :: d) = ((metasOnly t).getD none).toList ++ metaKeys d := by
      rw [metaKeys, attrsOf_cons, List.filterMap_append]
      congr 1
      cases t with
      | opening n attrs =>
        by_cases hn : n = "meta".toList
        · simp only [Tag.attrsOf?, metasOnly, if_pos hn, Option.toList_some, List.filterMap_cons,
            List.filterMap_nil, Option.getD_some]
          cases keyOf attrs <;> rfl
        · simp only [Tag.attrsOf?, metasOnly, if_neg hn]
          rfl
      | _ => rfl
    rw [hkeys] at hnodup hseen
    obtain ⟨-, hnodup', hdisj⟩ := List.nodup_append.1 hnodup
    have htag := keepFirst_tag seen t (fun k hk => hseen k (by simp [hk]))
    obtain ⟨seen', ih⟩ := ih (((metasOnly t).getD none).toList ++ seen) hnodup' fun k hk hm => by
      rcases List.mem_append.1 hm with hm | hm
      · exact hdisj k hm k hk rfl
      · exact hseen k (List.mem_append_right _ hk) hm
    refine ⟨seen', ?_⟩
    simp only [List.flatMap_cons, List.append_assoc]
    rw [htag, keepFirst_plain, ih]
    simp

/-- The sixth pass of the reduction leaves a document with different keys alone. -/
theorem rewrites_dedupeMetas {ε : Type} [Sealed ε] {d : List (Span ε)} (hd : WellFormed d)
    (hn : NulFree d) (hkeys : (metaKeys d).Nodup) : Rewrites Reduce.dedupeMetas d d := by
  refine Rewrites.around hd hn fun saved d' hd' hmap => ⟨d', hd', hmap, fun v => ?_⟩
  have hkeys' : metaKeys d' = metaKeys d := by rw [metaKeys, metaKeys, ← hmap, attrsOf_mapSealed]
  obtain ⟨seen', h⟩ := exists_keepFirst [] (hkeys' ▸ hkeys) (by simp) (segments Reduce.metaTag? v)
  refine ⟨Reduce.keepFirst seen' (segments Reduce.metaTag? v), ?_, ?_⟩
  · show Reduce.keepFirst [] (segments _ _) = _
    rw [(readBy_metaTag hd').segments_text, h]
  · rintro rfl
    simp [Reduce.keepFirst]

/-! ### Tags with a key -/

/-- The attributes of a tag with a key and perhaps a content. -/
def keyed (name key : String) (content : Option (List Char)) : List Attr :=
  ⟨name.toList, some key.toList⟩ :: (content.map fun v => ⟨"content".toList, some v⟩).toList

/-- Two marks are needed for a value between them. -/
theorem two_le_count_of_valueBetween? {q : Char} {s : List Char} {x : List Char × Cut s}
    (h : Reduce.valueBetween? q s = some x) : 2 ≤ s.count q := by
  simp only [Reduce.valueBetween?, Option.bind_eq_bind, Option.bind_eq_some_iff] at h
  obtain ⟨k1, h1, k2, h2, -⟩ := h
  obtain ⟨c, hc, hs⟩ := Cut.eq_cons_of_char? h1
  obtain ⟨d, hd, hr⟩ := Cut.eq_cons_of_char? h2
  obtain rfl : c = q := by simpa using hc
  obtain rfl : d = c := by simpa using hd
  have hle : (d :: k2.rest).count d ≤ k1.rest.count d :=
    hr ▸ ((List.dropWhile_suffix _).sublist.count_le d)
  have hone : 1 ≤ (d :: k2.rest).count d := by simp
  rw [hs, List.count_cons_self]
  omega

theorem keyAttribute?_of_count {s : List Char} (h1 : s.count '"' ≤ 1) (h2 : s.count '\'' ≤ 1)
    (b : Option Char) : Reduce.keyAttribute? b s = none := by
  cases h : Reduce.keyAttribute? b s with
  | none => rfl
  | some x =>
    unfold Reduce.keyAttribute? at h
    split at h
    · cases h
    · simp only [Option.bind_eq_bind, Option.bind_eq_some_iff] at h
      obtain ⟨k1, -, k2, -, x, hx, -⟩ := h
      have hsuffix : (Cut.span isBlank k2.rest).rest <:+ s :=
        (Cut.rest_suffix _).trans <| k2.rest_suffix.trans <|
          (Cut.rest_suffix (Cut.span isBlank k1.rest)).trans k1.rest_suffix
      have hle := fun c => hsuffix.sublist.count_le c
      cases hq : Reduce.valueBetween? '"' (Cut.span isBlank k2.rest).rest with
      | some y =>
        have := two_le_count_of_valueBetween? hq
        have := hle '"'
        omega
      | none =>
        rw [Reduce.quotedValue?, hq] at hx
        have := two_le_count_of_valueBetween? (q := '\'') hx
        have := hle '\''
        omega

theorem sameLetter_first {a c : Char} (hc : c.toNat < 128) (h : c.toLower ≠ a) (w s : List Char) :
    Cut.wordBy? sameLetter (a :: w) (c :: s) = none :=
  Cut.wordBy?_neg (sameLetter_of_ascii hc h) w s

/-- A key is not recognised where none of the names can begin. -/
theorem keyAttribute?_of_first {c : Char} (hc : c.toNat < 128)
    (h : c.toLower ≠ 'n' ∧ c.toLower ≠ 'p' ∧ c.toLower ≠ 'h') (b : Option Char) (s : List Char) :
    Reduce.keyAttribute? b (c :: s) = none := by
  have h1 : Cut.wordAnyCase? "name" (c :: s) = none := sameLetter_first hc h.1 _ s
  have h2 : Cut.wordAnyCase? "property" (c :: s) = none := sameLetter_first hc h.2.1 _ s
  have h3 : Cut.wordAnyCase? "http-equiv" (c :: s) = none := sameLetter_first hc h.2.2 _ s
  unfold Reduce.keyAttribute?
  split
  · rfl
  · simp [Reduce.keyAttributes, h1, h2, h3]

/-- A key is not recognised inside a word. -/
theorem keyAttribute?_of_word {b : Char} (hb : isWord b = true) (s : List Char) :
    Reduce.keyAttribute? (some b) s = none := by
  have : startsWord (some b) = false := by simp [startsWord, hb]
  simp [Reduce.keyAttribute?, this]

/-- The name of a key is found at its own place. -/
theorem findName_gives {name : String} (hname : name ∈ Reduce.keyAttributes) {s v : List Char}
    (hs : s = name.toList ++ v) :
    Cut.Gives (Reduce.keyAttributes.findSome? fun name => Cut.wordAnyCase? name s) name.toList v := by
  have hsame : ∀ m ∈ Reduce.keyAttributes, ∀ c ∈ m.toList, sameLetter c c = true := by decide
  obtain ⟨k, hk, ht, hr⟩ := Cut.wordBy?_gives (hsame name hname) hs
  refine ⟨k, ?_, ht, hr⟩
  simp only [Reduce.keyAttributes, List.mem_cons, List.not_mem_nil, or_false] at hname
  rcases hname with rfl | rfl | rfl
  · have hk : Cut.wordAnyCase? "name" s = some k := hk
    simp [Reduce.keyAttributes, hk]
  · have h1 : Cut.wordAnyCase? "name" s = none := by
      rw [hs]
      exact sameLetter_first (by decide) (by decide) _ _
    have hk : Cut.wordAnyCase? "property" s = some k := hk
    simp [Reduce.keyAttributes, h1, hk]
  · have h1 : Cut.wordAnyCase? "name" s = none := by
      rw [hs]
      exact sameLetter_first (by decide) (by decide) _ _
    have h2 : Cut.wordAnyCase? "property" s = none := by
      rw [hs]
      exact sameLetter_first (by decide) (by decide) _ _
    have hk : Cut.wordAnyCase? "http-equiv" s = some k := hk
    simp [Reduce.keyAttributes, h1, h2, hk]

theorem valueBetween?_gives {q : Char} {v s w : List Char} (hv : q ∉ v) (hs : s = q :: (v ++ q :: w)) :
    ∃ k : Cut s, Reduce.valueBetween? q s = some (v, k) ∧ k.text = q :: (v ++ [q]) ∧ k.rest = w := by
  obtain ⟨k1, h1, t1, r1⟩ := Cut.char?_gives (p := (· == q)) hs (by simp)
  obtain ⟨htake, hdrop⟩ := Cut.span_ne_gives r1 hv
  obtain ⟨k2, h2, t2, r2⟩ := Cut.char?_gives (p := (· == q)) hdrop (by simp)
  refine ⟨(k1.andThen (Cut.span (· != q) k1.rest)).andThen k2, ?_, ?_, r2⟩
  · simp only [Reduce.valueBetween?, h1, h2, Option.bind_eq_bind, Option.bind_some, Option.pure_def,
      htake]
  · show k1.text ++ (Cut.span (· != q) k1.rest).text ++ k2.text = _
    rw [t1, t2, htake]
    rfl

/-- A value between quotes of either kind is found. -/
theorem quotedValue?_gives {q : Char} (hq : q = '"' ∨ q = '\'') {v s w : List Char} (hv : q ∉ v)
    (hs : s = q :: (v ++ q :: w)) :
    ∃ k : Cut s, Reduce.quotedValue? s = some (v, k) ∧ k.text = q :: (v ++ [q]) ∧ k.rest = w := by
  obtain ⟨k, hk, ht, hr⟩ := valueBetween?_gives hv hs
  refine ⟨k, ?_, ht, hr⟩
  rcases hq with rfl | rfl
  · rw [Reduce.quotedValue?, hk]
    rfl
  · have hdouble : Reduce.valueBetween? '"' s = none := by
      rw [hs]
      simp [Reduce.valueBetween?, Cut.char?]
    rw [Reduce.quotedValue?, hdouble, hk]
    rfl

/-- A key is recognised at its own name. -/
theorem keyAttribute?_gives {name : String} (hname : name ∈ Reduce.keyAttributes)
    {key s v : List Char} (hmark : '"' ∉ key)
    (hs : s = name.toList ++ '=' :: '"' :: (key ++ '"' :: v)) :
    ∃ k : Cut s, Reduce.keyAttribute? (some ' ') s = some ((name.toList, key), k) ∧
      k.text = name.toList ++ '=' :: '"' :: key ++ ['"'] ∧ k.rest = v := by
  have hattr : ∀ m ∈ Reduce.keyAttributes, isAttrName m.toList = true := by decide
  obtain ⟨k1, h1, t1, r1⟩ := findName_gives hname hs
  have d1 : (Cut.span isBlank k1.rest).rest = '=' :: '"' :: (key ++ '"' :: v) := by
    rw [Cut.span_rest, r1]
    rfl
  obtain ⟨k2, h2, t2, r2⟩ := Cut.char?_gives (p := (· == '=')) d1 (by decide)
  have d2 : (Cut.span isBlank k2.rest).rest = '"' :: (key ++ '"' :: v) := by
    rw [Cut.span_rest, r2]
    rfl
  obtain ⟨k3, h3, t3, r3⟩ := quotedValue?_gives (.inl rfl) hmark d2
  have hstart : startsWord (some ' ') = true := by decide
  have hlower : lower k1.text = name.toList := by rw [t1, lower_of_isAttrName (hattr name hname)]
  have e : Reduce.keyAttribute? (some ' ') s = some ((name.toList, key),
      (((k1.andThen (Cut.span isBlank k1.rest)).andThen k2).andThen (Cut.span isBlank k2.rest)).andThen
        k3) := by
    simp only [Reduce.keyAttribute?, hstart, h1, h2, h3, hlower, Option.bind_eq_bind, Option.bind_some,
      Bool.not_true, Bool.false_eq_true, if_false]
    rfl
  refine ⟨_, e, ?_, r3⟩
  show k1.text ++ k1.rest.takeWhile isBlank ++ k2.text ++ k2.rest.takeWhile isBlank ++ k3.text = _
  have l1 : k1.rest.takeWhile isBlank = [] := by
    rw [r1]
    rfl
  have l2 : k2.rest.takeWhile isBlank = [] := by
    rw [r2]
    rfl
  rw [l1, l2, t1, t2, t3]
  simp

theorem values_of_none {α : Type} {r : Recognizer α} {b : Option Char} {c : Char} {s : List Char}
    (h : r b (c :: s) = none) : (segmentsFrom r b (c :: s)).filterMap Segment.value? =
      (segmentsFrom r (some c) s).filterMap Segment.value? := by
  rw [segmentsFrom_of_none h]
  rfl

/-- Nothing is recognised where too few quotes are left. -/
theorem values_of_count {s : List Char} (h1 : s.count '"' ≤ 1) (h2 : s.count '\'' ≤ 1)
    (b : Option Char) : (segmentsFrom Reduce.keyAttribute? b s).filterMap Segment.value? = [] := by
  rw [segmentsFrom_of_none_all fun b u hu => keyAttribute?_of_count
    ((hu.sublist.count_le _).trans h1) ((hu.sublist.count_le _).trans h2) b]
  simp [List.filterMap_eq_nil_iff, Segment.value?]

/-- Nothing is recognised in a content without quotes, nor after it. -/
theorem values_content {content : Option (List Char)} (h : ∀ v ∈ content, '"' ∉ v ∧ '\'' ∉ v)
    (b : Option Char) :
    (segmentsFrom Reduce.keyAttribute? b
      (((content.map fun v => ⟨"content".toList, some v⟩).toList : List Attr).flatMap Attr.text ++
        ['>'])).filterMap Segment.value? = [] := by
  cases content with
  | none => exact values_of_count (by decide) (by decide) b
  | some v =>
    obtain ⟨h1, h2⟩ := h v rfl
    have c1 : (v ++ ['"', '>']).count '"' ≤ 1 := by simp [List.count_eq_zero.2 h1]
    have c2 : (v ++ ['"', '>']).count '\'' ≤ 1 := by simp [List.count_eq_zero.2 h2]
    have htext : ((some v).map fun v => (⟨"content".toList, some v⟩ : Attr)).toList.flatMap Attr.text ++
        ['>'] = ' ' :: 'c' :: 'o' :: 'n' :: 't' :: 'e' :: 'n' :: 't' :: '=' :: '"' :: (v ++ ['"', '>']) := by
      simp [Attr.text]
    rw [htext, values_of_none (keyAttribute?_of_first (by decide) (by decide) _ _),
      values_of_none (keyAttribute?_of_first (by decide) (by decide) _ _),
      values_of_none (keyAttribute?_of_first (by decide) (by decide) _ _),
      values_of_none (keyAttribute?_of_word (by decide) _),
      values_of_none (keyAttribute?_of_first (by decide) (by decide) _ _),
      values_of_none (keyAttribute?_of_first (by decide) (by decide) _ _),
      values_of_none (keyAttribute?_of_word (by decide) _),
      values_of_none (keyAttribute?_of_first (by decide) (by decide) _ _),
      values_of_none (keyAttribute?_of_first (by decide) (by decide) _ _),
      values_of_none (keyAttribute?_of_first (by decide) (by decide) _ _)]
    exact values_of_count c1 c2 _

theorem findAll_keyed {name key : String} (hname : name ∈ Reduce.keyAttributes)
    (hmark : '"' ∉ key.toList) {content : Option (List Char)}
    (hcontent : ∀ v ∈ content, '"' ∉ v ∧ '\'' ∉ v) :
    findAll Reduce.keyAttribute? (openingText "meta".toList (keyed name key content)) =
      [(name.toList, key.toList)] := by
  generalize hrest : ((content.map fun v => (⟨"content".toList, some v⟩ : Attr)).toList.flatMap
    Attr.text ++ ['>']) = rest
  have hvalues := fun b => hrest ▸ values_content hcontent b
  have htext : openingText "meta".toList (keyed name key content) =
      '<' :: 'm' :: 'e' :: 't' :: 'a' :: ' ' ::
        (name.toList ++ '=' :: '"' :: key.toList ++ ['"'] ++ rest) := by
    simp [openingText, keyed, Attr.text, ← hrest]
  obtain ⟨k, hk, ht, -⟩ := keyAttribute?_gives hname (v := rest) hmark
    (s := name.toList ++ '=' :: '"' :: key.toList ++ ['"'] ++ rest) (by simp)
  rw [findAll, segments, htext, values_of_none (keyAttribute?_of_first (by decide) (by decide) _ _),
    values_of_none (keyAttribute?_of_first (by decide) (by decide) _ _),
    values_of_none (keyAttribute?_of_first (by decide) (by decide) _ _),
    values_of_none (keyAttribute?_of_first (by decide) (by decide) _ _),
    values_of_none (keyAttribute?_of_first (by decide) (by decide) _ _),
    values_of_none (keyAttribute?_of_first (by decide) (by decide) _ _),
    segmentsFrom_of_some (by simp) hk ht, List.filterMap_cons, hvalues]
  rfl

/-- The key of a tag is its first value in lower case. -/
theorem keyOf_keyed {name key : String} (hname : name ∈ Reduce.keyAttributes)
    (hkey : key.toList ≠ []) (hmark : '"' ∉ key.toList) {content : Option (List Char)}
    (hcontent : ∀ v ∈ content, '"' ∉ v ∧ '\'' ∉ v) :
    keyOf (keyed name key content) = some (lower key.toList) := by
  obtain ⟨c, w, hc⟩ := List.exists_cons_of_ne_nil hkey
  rw [keyOf, Reduce.metaKey?, findAll_keyed hname hmark hcontent, hc]
  simp only [Reduce.keyAttributes, List.mem_cons, List.not_mem_nil, or_false] at hname
  rcases hname with rfl | rfl | rfl <;> rfl

end PagePress.Markup
