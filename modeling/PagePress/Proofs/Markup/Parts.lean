import PagePress.Proofs.Markup.Edit

/-!
Documents put together from texts and tags in any order. Texts that meet run together; a text
before the first tag is kept apart (`lead`). Comments go from a document by going from its parts.
-/

namespace PagePress.Markup

open Text

variable {ε δ : Type}

/-- A text or a tag. -/
inductive Part (ε : Type) where
  | text (s : List Char)
  | tag (t : Tag ε)
  deriving DecidableEq, Repr

/-- The part is a comment. -/
def Part.isComment : Part ε → Bool
  | tag (.comment _) => true
  | _ => false

/-- The text before the first tag. -/
def lead : List (Part ε) → List Char
  | [] => []
  | .text s :: ps => s ++ lead ps
  | .tag _ :: _ => []

/-- The tags of some parts with the texts after them. -/
def spans : List (Part ε) → List (Span ε)
  | [] => []
  | .text _ :: ps => spans ps
  | .tag t :: ps => ⟨t, lead ps⟩ :: spans ps

/-- The parts of a document. -/
def parts (d : List (Span ε)) : List (Part ε) := d.flatMap fun s => [.tag s.tag, .text s.after]

/-- A document without its comments. -/
def dropComments (d : List (Span ε)) : List (Span ε) :=
  spans ((parts d).filter fun p => !p.isComment)

@[simp] theorem lead_text (s : List Char) (ps : List (Part ε)) :
    lead (.text s :: ps) = s ++ lead ps := rfl

@[simp] theorem lead_tag (t : Tag ε) (ps : List (Part ε)) : lead (.tag t :: ps) = [] := rfl

@[simp] theorem spans_text (s : List Char) (ps : List (Part ε)) :
    spans (.text s :: ps) = spans ps := rfl

@[simp] theorem spans_tag (t : Tag ε) (ps : List (Part ε)) :
    spans (.tag t :: ps) = ⟨t, lead ps⟩ :: spans ps := rfl

@[simp] theorem parts_nil : parts ([] : List (Span ε)) = [] := rfl

@[simp] theorem parts_cons (s : Span ε) (d : List (Span ε)) :
    parts (s :: d) = .tag s.tag :: .text s.after :: parts d := rfl

/-! ### Tags one by one -/

/-- A tag replaced, or the text as it is. -/
def Part.mapTag (f : Tag ε → Tag δ) : Part ε → Part δ
  | text s => text s
  | tag t => tag (f t)

def Span.mapTag (f : Tag ε → Tag δ) (s : Span ε) : Span δ := ⟨f s.tag, s.after⟩

theorem lead_mapTag (f : Tag ε → Tag δ) (ps : List (Part ε)) :
    lead (ps.map (Part.mapTag f)) = lead ps := by
  induction ps with
  | nil => rfl
  | cons p ps ih =>
    cases p with
    | text s => exact congrArg (s ++ ·) ih
    | tag t => rfl

theorem spans_mapTag (f : Tag ε → Tag δ) (ps : List (Part ε)) :
    spans (ps.map (Part.mapTag f)) = (spans ps).map (Span.mapTag f) := by
  induction ps with
  | nil => rfl
  | cons p ps ih =>
    cases p with
    | text s => exact ih
    | tag t =>
      show ⟨f t, lead (ps.map (Part.mapTag f))⟩ :: spans (ps.map (Part.mapTag f)) =
        ⟨f t, lead ps⟩ :: (spans ps).map (Span.mapTag f)
      rw [lead_mapTag, ih]

theorem parts_mapTag (f : Tag ε → Tag δ) (d : List (Span ε)) :
    parts (d.map (Span.mapTag f)) = (parts d).map (Part.mapTag f) := by
  induction d with
  | nil => rfl
  | cons s d ih => simp [ih, Part.mapTag, Span.mapTag]

@[simp] theorem Part.isComment_text (s : List Char) : (Part.text s : Part ε).isComment = false := rfl

theorem Part.isComment_tag {t : Tag ε} (ht : ∀ s, t ≠ .comment s) : (Part.tag t).isComment = false := by
  cases t with
  | comment s => exact absurd rfl (ht s)
  | _ => rfl

/-- Dropping comments does not mind a change of the other tags. -/
theorem dropComments_mapTag {f : Tag ε → Tag δ}
    (hf : ∀ t, (Part.tag (f t)).isComment = (Part.tag t).isComment) (d : List (Span ε)) :
    dropComments (d.map (Span.mapTag f)) = (dropComments d).map (Span.mapTag f) := by
  have hcomment : ∀ p : Part ε, (p.mapTag f).isComment = p.isComment := by
    intro p
    cases p with
    | text s => rfl
    | tag t => exact hf t
  rw [dropComments, dropComments, parts_mapTag, List.filter_map, ← spans_mapTag]
  simp [Function.comp_def, hcomment]

/-- Dropping comments does not look into sealed elements. -/
theorem mapSealed_dropComments (f : ε → δ) (d : List (Span ε)) :
    mapSealed f (dropComments d) = dropComments (mapSealed f d) := by
  have hcomment : ∀ t : Tag ε, (Part.tag (t.map f)).isComment = (Part.tag t).isComment := by
    intro t
    cases t <;> rfl
  exact (dropComments_mapTag hcomment d).symm

/-! ### Text -/

section

variable [Written ε]

def Part.chars : Part ε → List Char
  | text s => s
  | tag t => t.text

/-- A document has all the text of its parts. -/
theorem lead_append_text_spans (ps : List (Part ε)) :
    lead ps ++ Markup.text (spans ps) = ps.flatMap Part.chars := by
  induction ps with
  | nil => rfl
  | cons p ps ih =>
    cases p with
    | text s => simp [← ih, Part.chars]
    | tag t => simp [← ih, Part.chars]

end

/-- A span of a document put together from parts has its tag and all its text from them. -/
theorem mem_spans {ps : List (Part ε)} {s : Span ε} (hs : s ∈ spans ps) :
    .tag s.tag ∈ ps ∧ ∀ c ∈ s.after, ∃ t, .text t ∈ ps ∧ c ∈ t := by
  have hlead : ∀ ps : List (Part ε), ∀ c ∈ lead ps, ∃ t, .text t ∈ ps ∧ c ∈ t := by
    intro ps
    induction ps with
    | nil => simp [lead]
    | cons p ps ih =>
      cases p with
      | text u =>
        intro c hc
        rcases List.mem_append.1 hc with hc | hc
        · exact ⟨u, by simp, hc⟩
        · obtain ⟨t, ht, hc⟩ := ih c hc
          exact ⟨t, by simp [ht], hc⟩
      | tag t => simp
  induction ps with
  | nil => simp [spans] at hs
  | cons p ps ih =>
    have hmono : s ∈ spans ps → .tag s.tag ∈ p :: ps ∧ ∀ c ∈ s.after, ∃ t, .text t ∈ p :: ps ∧ c ∈ t := by
      intro hs
      obtain ⟨h1, h2⟩ := ih hs
      refine ⟨List.mem_cons_of_mem _ h1, fun c hc => ?_⟩
      obtain ⟨t, ht, hc⟩ := h2 c hc
      exact ⟨t, List.mem_cons_of_mem _ ht, hc⟩
    cases p with
    | text u => exact hmono hs
    | tag t =>
      rcases List.mem_cons.1 hs with rfl | hs
      · refine ⟨by simp, fun c hc => ?_⟩
        obtain ⟨t', ht, hc⟩ := hlead ps c hc
        exact ⟨t', by simp [ht], hc⟩
      · exact hmono hs

/-- What stands before a tag does not run together with what stands behind it. -/
theorem spans_append_tag (ps : List (Part ε)) (t : Tag ε) (qs : List (Part ε)) :
    spans (ps ++ .tag t :: qs) = spans ps ++ spans (.tag t :: qs) := by
  have hlead : ∀ ps : List (Part ε), lead (ps ++ .tag t :: qs) = lead ps := by
    intro ps
    induction ps with
    | nil => rfl
    | cons p ps ih =>
      cases p with
      | text s => exact congrArg (s ++ ·) ih
      | tag u => rfl
  induction ps with
  | nil => rfl
  | cons p ps ih =>
    cases p with
    | text s => exact ih
    | tag u =>
      show ⟨u, lead (ps ++ .tag t :: qs)⟩ :: spans (ps ++ .tag t :: qs) = _
      rw [hlead, ih]
      rfl

/-- The tag of a part, if it is one. -/
def Part.tag? : Part ε → Option (Tag ε)
  | text _ => none
  | tag t => some t

theorem tags_spans (ps : List (Part ε)) : (spans ps).map Span.tag = ps.filterMap Part.tag? := by
  induction ps with
  | nil => rfl
  | cons p ps ih =>
    cases p with
    | text s => exact ih
    | tag t => exact congrArg (t :: ·) ih

/-! ### Documents without comments -/

theorem mem_parts {d : List (Span ε)} {p : Part ε} (hp : p ∈ parts d) :
    ∃ s ∈ d, p = .tag s.tag ∨ p = .text s.after := by
  obtain ⟨s, hs, hp⟩ := List.mem_flatMap.1 hp
  exact ⟨s, hs, by simpa using hp⟩

/-- What is left without comments was there before. -/
theorem mem_dropComments {d : List (Span ε)} {s : Span ε} (hs : s ∈ dropComments d) :
    (∃ s' ∈ d, s'.tag = s.tag) ∧ (∀ t, s.tag ≠ .comment t) ∧
      ∀ c ∈ s.after, ∃ s' ∈ d, c ∈ s'.after := by
  obtain ⟨htag, hafter⟩ := mem_spans hs
  obtain ⟨hmem, hcomment⟩ := List.mem_filter.1 htag
  refine ⟨?_, ?_, fun c hc => ?_⟩
  · obtain ⟨s', hs', h | h⟩ := mem_parts hmem
    · injection h with h
      exact ⟨s', hs', h.symm⟩
    · cases h
  · intro t ht
    rw [ht] at hcomment
    cases hcomment
  · obtain ⟨t, ht, hc⟩ := hafter c hc
    obtain ⟨s', hs', h | h⟩ := mem_parts (List.mem_filter.1 ht).1
    · cases h
    · injection h with h
      exact ⟨s', hs', h ▸ hc⟩

theorem WellFormed.dropComments [Written ε] {d : List (Span ε)} (h : WellFormed d) :
    WellFormed (dropComments d) := by
  intro s hs
  obtain ⟨⟨s', hs', ht⟩, -, hafter⟩ := mem_dropComments hs
  refine ⟨ht ▸ (h s' hs').tag, fun c hc => ?_⟩
  obtain ⟨s'', hs'', hc⟩ := hafter c hc
  exact (h s'' hs'').after c hc

theorem NulFree.dropComments [Written ε] {d : List (Span ε)} (h : NulFree d) :
    NulFree (dropComments d) := by
  intro s hs
  obtain ⟨⟨s', hs', ht⟩, -, hafter⟩ := mem_dropComments hs
  refine ⟨ht ▸ (h s' hs').1, fun hc => ?_⟩
  obtain ⟨s'', hs'', hc⟩ := hafter _ hc
  exact (h s'' hs'').2 hc

/-- A last tag that is no comment stays the last one. -/
theorem dropComments_append {d : List (Span ε)} {t : Tag ε} (ht : ∀ s, t ≠ .comment s)
    (a : List Char) : dropComments (d ++ [⟨t, a⟩]) = dropComments d ++ [⟨t, a⟩] := by
  have hkeep : (parts [(⟨t, a⟩ : Span ε)]).filter (fun p => !p.isComment) = [.tag t, .text a] := by
    simp [parts, Part.isComment_tag ht]
  have hparts : parts (d ++ [⟨t, a⟩]) = parts d ++ parts [(⟨t, a⟩ : Span ε)] := List.flatMap_append
  rw [dropComments, hparts, List.filter_append, hkeep, spans_append_tag]
  simp [dropComments, lead, spans]

/-- A document without comments has the other tags of the document, in order. -/
theorem tags_dropComments (d : List (Span ε)) :
    (dropComments d).map Span.tag = (d.map Span.tag).filter fun t => !(Part.tag t).isComment := by
  rw [dropComments, tags_spans]
  induction d with
  | nil => rfl
  | cons s d ih =>
    obtain ⟨t, a⟩ := s
    have hnone : (Part.text (ε := ε) a).tag? = none := rfl
    rw [parts_cons, List.map_cons]
    cases hc : (Part.tag t).isComment with
    | true => simp [hc, hnone, ih]
    | false =>
      have hsome : (Part.tag t).tag? = some t := rfl
      simp [hc, hnone, hsome, ih]

theorem dropComments_of_uncommented {d : List (Span ε)} (h : ∀ s ∈ d, ∀ t, s.tag ≠ .comment t) :
    dropComments d = d := by
  induction d with
  | nil => rfl
  | cons s d ih =>
    obtain ⟨t, a⟩ := s
    have hkeep : (Part.tag t).isComment = false := Part.isComment_tag (h ⟨t, a⟩ (by simp))
    have hlead : lead ((parts d).filter fun p => !p.isComment) = [] := by
      cases d with
      | nil => rfl
      | cons s d =>
        have hnext := Part.isComment_tag (h s (by simp))
        rw [parts_cons, List.filter_cons_of_pos (by simp [hnext])]
        rfl
    have ih : spans ((parts d).filter fun p => !p.isComment) = d := ih fun s hs => h s (by simp [hs])
    rw [dropComments, parts_cons, List.filter_cons_of_pos (by simp [hkeep]),
      List.filter_cons_of_pos (by simp), spans_tag, lead_text, spans_text, hlead, ih,
      List.append_nil]

/-- A part after an edit of tags and texts. -/
def Part.edit (f : Edit) : Part ε → Part ε
  | text s => text (f.text s)
  | tag t => tag (t.edit f)

/-- Dropping comments does not mind an edit of texts that goes part by part. -/
theorem dropComments_edit {f : Edit} (hnil : f.text [] = [])
    (happend : ∀ a b, f.text (a ++ b) = f.text a ++ f.text b) (d : List (Span ε)) :
    dropComments (edit f d) = edit f (dropComments d) := by
  have hlead : ∀ ps : List (Part ε), lead (ps.map (Part.edit f)) = f.text (lead ps) := by
    intro ps
    induction ps with
    | nil => exact hnil.symm
    | cons p ps ih =>
      cases p with
      | text s => rw [List.map_cons, Part.edit, lead_text, lead_text, happend, ih]
      | tag t => exact hnil.symm
  have hspans : ∀ ps : List (Part ε), spans (ps.map (Part.edit f)) = edit f (spans ps) := by
    intro ps
    induction ps with
    | nil => rfl
    | cons p ps ih =>
      cases p with
      | text s => exact ih
      | tag t => rw [List.map_cons, Part.edit, spans_tag, spans_tag, edit_cons, hlead, ih]
  have hparts : parts (edit f d) = (parts d).map (Part.edit f) := by
    induction d with
    | nil => rfl
    | cons s d ih => rw [edit_cons, parts_cons, parts_cons, ih]; rfl
  have hcomment : ∀ p : Part ε, (p.edit f).isComment = p.isComment := by
    intro p
    rcases p with s | t
    · rfl
    · cases t <;> rfl
  rw [dropComments, dropComments, hparts, List.filter_map, ← hspans]
  simp [Function.comp_def, hcomment]

/-- The attributes that a part of a document contributes to those of a name. -/
def Part.attrsOf? (n : List Char) : Part ε → Option (List Attr)
  | text _ => none
  | tag t => t.attrsOf? n

theorem attrsOf_spans (n : List Char) (ps : List (Part ε)) :
    attrsOf n (spans ps) = ps.filterMap (Part.attrsOf? n) := by
  induction ps with
  | nil => rfl
  | cons p ps ih =>
    cases p with
    | text s => exact ih
    | tag t =>
      rw [spans_tag, attrsOf_cons, ih]
      cases h : t.attrsOf? n <;> simp [Part.attrsOf?, h]

theorem attrsOf_dropComments (n : List Char) (d : List (Span ε)) :
    attrsOf n (dropComments d) = attrsOf n d := by
  rw [dropComments, attrsOf_spans]
  induction d with
  | nil => rfl
  | cons s d ih =>
    obtain ⟨t, a⟩ := s
    rw [attrsOf_cons, ← ih, parts_cons]
    cases t with
    | comment s => rfl
    | opening m attrs =>
      show List.filterMap (Part.attrsOf? n) (.tag (.opening m attrs) :: .text a :: _) = _
      by_cases h : m = n <;> simp [List.filterMap_cons, Part.attrsOf?, Tag.attrsOf?, h]
    | _ => rfl

end PagePress.Markup
