import PagePress.Proofs.Markup

/-!
Edits of documents: changes that treat each tag and each text by itself. An edit rewrites the
attributes of opening tags and the texts between tags, and leaves names, closing tags and sealed
elements alone. Edits compose (`edit_edit`), do not look into sealed elements
(`mapSealed_edit`) and keep documents well formed when their two functions do.
-/

namespace PagePress.Markup

variable {ε δ : Type}

/-! ### Sealed elements -/

/-- A tag with its sealed element replaced. -/
def Tag.map (f : ε → δ) : Tag ε → Tag δ
  | declaration s => declaration s
  | comment s => comment s
  | opening name attrs => opening name attrs
  | closing name => closing name
  | sealed e => sealed (f e)

/-- A document with its sealed elements replaced. -/
def mapSealed (f : ε → δ) (d : List (Span ε)) : List (Span δ) :=
  d.map fun s => ⟨s.tag.map f, s.after⟩

@[simp] theorem mapSealed_nil (f : ε → δ) : mapSealed f [] = [] := rfl

@[simp] theorem mapSealed_cons (f : ε → δ) (s : Span ε) (d : List (Span ε)) :
    mapSealed f (s :: d) = ⟨s.tag.map f, s.after⟩ :: mapSealed f d := rfl

@[simp] theorem mapSealed_append (f : ε → δ) (d d' : List (Span ε)) :
    mapSealed f (d ++ d') = mapSealed f d ++ mapSealed f d' := List.map_append

/-! ### Edits -/

/-- An attribute with its value changed. -/
def Attr.mapValue (f : List Char → List Char) (a : Attr) : Attr := ⟨a.name, a.value.map f⟩

/-- A change of the attributes of opening tags, which may depend on the name of the tag, and of
the texts between tags. -/
structure Edit where
  attrs : List Char → List Attr → List Attr
  text : List Char → List Char

def Tag.edit (f : Edit) : Tag ε → Tag ε
  | declaration s => declaration s
  | comment s => comment s
  | opening name attrs => opening name (f.attrs name attrs)
  | closing name => closing name
  | sealed e => sealed e

/-- A document after an edit. -/
def edit (f : Edit) (d : List (Span ε)) : List (Span ε) :=
  d.map fun s => ⟨s.tag.edit f, f.text s.after⟩

@[simp] theorem edit_nil (f : Edit) : edit f ([] : List (Span ε)) = [] := rfl

@[simp] theorem edit_cons (f : Edit) (s : Span ε) (d : List (Span ε)) :
    edit f (s :: d) = ⟨s.tag.edit f, f.text s.after⟩ :: edit f d := rfl

@[simp] theorem edit_append (f : Edit) (d d' : List (Span ε)) :
    edit f (d ++ d') = edit f d ++ edit f d' := List.map_append

theorem Tag.map_edit (f : Edit) (g : ε → δ) (t : Tag ε) : (t.edit f).map g = (t.map g).edit f := by
  cases t <;> rfl

/-- Edits do not look into sealed elements. -/
theorem mapSealed_edit (f : Edit) (g : ε → δ) (d : List (Span ε)) :
    mapSealed g (edit f d) = edit f (mapSealed g d) := by
  simp [mapSealed, edit, Function.comp_def, Tag.map_edit]

namespace Edit

/-- One edit after another. -/
def andThen (f g : Edit) : Edit where
  attrs n a := g.attrs n (f.attrs n a)
  text s := g.text (f.text s)

/-- An edit that keeps attributes and texts well formed. -/
structure Sound (f : Edit) : Prop where
  attrs : ∀ n a, (∀ x ∈ a, x.WellFormed) → ∀ x ∈ f.attrs n a, x.WellFormed
  text : ∀ s, (∀ c ∈ s, isTextChar c = true) → ∀ c ∈ f.text s, isTextChar c = true

theorem mapValue_wellFormed {f : List Char → List Char}
    (hf : ∀ v, (∀ c ∈ v, isValueChar c = true) → ∀ c ∈ f v, isValueChar c = true) {a : Attr}
    (h : a.WellFormed) : (a.mapValue f).WellFormed := by
  refine ⟨h.name, fun v hv => ?_⟩
  obtain ⟨u, hu, rfl⟩ := Option.map_eq_some_iff.1 hv
  exact hf u (h.value u hu)

theorem Sound.andThen {f g : Edit} (hf : f.Sound) (hg : g.Sound) : (f.andThen g).Sound where
  attrs n a h := hg.attrs n _ (hf.attrs n a h)
  text s h := hg.text _ (hf.text s h)

end Edit

theorem edit_edit (f g : Edit) (d : List (Span ε)) : edit g (edit f d) = edit (f.andThen g) d := by
  have htag : ∀ t : Tag ε, (t.edit f).edit g = t.edit (f.andThen g) := by
    intro t
    cases t <;> rfl
  simp [edit, Function.comp_def, htag, Edit.andThen]

section

variable [Written ε] {d : List (Span ε)}

@[simp] theorem wellFormed_nil : WellFormed ([] : List (Span ε)) := by simp [WellFormed]

theorem wellFormed_cons {s : Span ε} :
    WellFormed (s :: d) ↔ s.WellFormed ∧ WellFormed d := by
  simp [WellFormed]

/-- A sound edit keeps a document well formed. -/
theorem WellFormed.edit (h : WellFormed d) {f : Edit} (hf : f.Sound) : WellFormed (edit f d) := by
  intro s hs
  obtain ⟨⟨t, a⟩, hm, rfl⟩ := List.mem_map.1 hs
  have ht := (h _ hm).tag
  refine ⟨?_, hf.text _ (h _ hm).after⟩
  cases t with
  | opening n attrs => exact ⟨ht.1, ht.2.1, hf.attrs n attrs ht.2.2⟩
  | _ => exact ht

theorem WellFormed.mapSealed [Written δ] (h : WellFormed d) {f : ε → δ}
    (hf : ∀ e, Written.WellFormed e → Written.WellFormed (f e)) : WellFormed (mapSealed f d) := by
  intro s hs
  obtain ⟨⟨t, a⟩, hm, rfl⟩ := List.mem_map.1 hs
  have ht := (h _ hm).tag
  refine ⟨?_, (h _ hm).after⟩
  cases t with
  | sealed e => exact hf e ht
  | _ => exact ht

end

/-! ### Tags of one name -/

/-- The attributes of an opening tag of a name. -/
def Tag.attrsOf? (n : List Char) : Tag ε → Option (List Attr)
  | opening m attrs => if m = n then some attrs else none
  | _ => none

/-- The attributes of the opening tags of a name, in order. -/
def attrsOf (n : List Char) (d : List (Span ε)) : List (List Attr) :=
  d.filterMap fun s => s.tag.attrsOf? n

theorem attrsOf_cons (n : List Char) (s : Span ε) (d : List (Span ε)) :
    attrsOf n (s :: d) = (s.tag.attrsOf? n).toList ++ attrsOf n d := by
  cases h : s.tag.attrsOf? n <;> simp [attrsOf, h]

/-- What is listed are the attributes of opening tags of this name. -/
theorem exists_opening {n : List Char} {attrs : List Attr} {d : List (Span ε)} (h : attrs ∈ attrsOf n d) :
    ∃ s ∈ d, s.tag = .opening n attrs := by
  obtain ⟨⟨t, a⟩, hs, ht⟩ := List.mem_filterMap.1 h
  refine ⟨_, hs, ?_⟩
  cases t with
  | opening m as =>
    simp only [Tag.attrsOf?] at ht
    split at ht
    · rename_i hm
      obtain rfl := Option.some.inj ht
      rw [hm]
    · cases ht
  | _ => cases ht

theorem attrsOf_edit (f : Edit) (n : List Char) (d : List (Span ε)) :
    attrsOf n (edit f d) = (attrsOf n d).map (f.attrs n) := by
  induction d with
  | nil => rfl
  | cons s d ih =>
    obtain ⟨t, a⟩ := s
    have htag : (t.edit f).attrsOf? n = (t.attrsOf? n).map (f.attrs n) := by
      cases t with
      | opening m attrs => by_cases h : m = n <;> simp [Tag.edit, Tag.attrsOf?, h]
      | _ => rfl
    rw [edit_cons, attrsOf_cons, attrsOf_cons, ih, htag, List.map_append]
    cases t.attrsOf? n <;> rfl

theorem attrsOf_mapSealed (f : ε → δ) (n : List Char) (d : List (Span ε)) :
    attrsOf n (mapSealed f d) = attrsOf n d := by
  have htag : ∀ t : Tag ε, (t.map f).attrsOf? n = t.attrsOf? n := by
    intro t
    cases t <;> rfl
  simp only [attrsOf, mapSealed, List.filterMap_map, Function.comp_def, htag]

/-! ### NUL characters -/

/-- No value of a tag holds a NUL. -/
def NulFreeAttrs (attrs : List Attr) : Prop := ∀ a ∈ attrs, ∀ v, a.value = some v → '\x00' ∉ v

def Tag.NulFree [Written ε] : Tag ε → Prop
  | opening _ attrs => NulFreeAttrs attrs
  | sealed e => '\x00' ∉ Written.text e
  | _ => True

/-- No value, no text and no sealed element of a document holds a NUL. -/
def NulFree [Written ε] (d : List (Span ε)) : Prop := ∀ s ∈ d, s.tag.NulFree ∧ '\x00' ∉ s.after

/-- An edit that brings in no NUL. -/
structure Edit.NulFree (f : Edit) : Prop where
  attrs : ∀ n a, NulFreeAttrs a → NulFreeAttrs (f.attrs n a)
  text : ∀ s, '\x00' ∉ s → '\x00' ∉ f.text s

theorem NulFree.edit [Written ε] {d : List (Span ε)} (h : NulFree d) {f : Edit} (hf : f.NulFree) :
    NulFree (edit f d) := by
  intro s hs
  obtain ⟨⟨t, a⟩, hm, rfl⟩ := List.mem_map.1 hs
  obtain ⟨ht, ha⟩ := h _ hm
  refine ⟨?_, hf.text a ha⟩
  cases t with
  | opening n attrs => exact hf.attrs n attrs ht
  | _ => exact ht

theorem NulFree.mapSealed [Written ε] [Written δ] {d : List (Span ε)} (h : NulFree d) {f : ε → δ}
    (hf : ∀ e, '\x00' ∉ Written.text e → '\x00' ∉ Written.text (f e)) : NulFree (mapSealed f d) := by
  intro s hs
  obtain ⟨⟨t, a⟩, hm, rfl⟩ := List.mem_map.1 hs
  obtain ⟨ht, ha⟩ := h _ hm
  refine ⟨?_, ha⟩
  cases t with
  | sealed e => exact hf e ht
  | _ => exact ht

end PagePress.Markup
