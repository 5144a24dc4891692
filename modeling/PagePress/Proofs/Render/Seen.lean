import PagePress.Proofs.Document.Reducible
import PagePress.Proofs.Markup.Reference

/-!
Attributes as a reader sees them. The value of an attribute is found as the layout or the author
gave it, and tidied where the document is reduced; an attribute of which nothing is left is gone
(`seenValue?_escaped`).
-/

namespace PagePress.Markup

open Text Html Render Document

/-- The value of an attribute of a tag, as a reader understands it. -/
def valueOf? (n : String) (attrs : List Attr) : Option (List Char) :=
  (attrs.find? fun a => a.name == n.toList).bind fun a => a.value.map decode

/-- A text as it is found in a document, reduced or not. -/
def seen (m : Bool) (s : List Char) : List Char := if m then tidy s else s

/-- An attribute as it is found in a document, reduced or not. -/
def Attr.seen? (m : Bool) (a : Attr) : Option Attr := if m then a.reduced? else some a

/-- The value that a reader finds for attributes of the layout. -/
def seenValue? (m : Bool) (n : String) (as : List Attribute) : Option (List Char) :=
  valueOf? n ((as.map attrOf).filterMap (Attr.seen? m))

theorem attrOf_escaped (name value : String) :
    attrOf (.escaped name value) = ⟨name.toList, some (escape value.toList)⟩ := by
  simp [attrOf, Attribute.escaped, Piece.textAll, Piece.text]

variable {m : Bool} {n : String}

theorem seenValue?_nil : seenValue? m n [] = none := rfl

theorem valueOf?_cons_of_eq {a : Attr} {v : List Char} (hn : a.name = n.toList) (hv : a.value = some v)
    (as : List Attr) : valueOf? n (a :: as) = some (decode v) := by
  have hfirst : (a.name == n.toList) = true := by rw [hn, beq_self_eq_true]
  rw [valueOf?, List.find?_cons, hfirst]
  simp only [Option.bind_some, hv, Option.map_some]

theorem valueOf?_cons_of_ne {a : Attr} (hn : a.name ≠ n.toList) (as : List Attr) :
    valueOf? n (a :: as) = valueOf? n as := by
  have hfirst : (a.name == n.toList) = false := by simpa using hn
  rw [valueOf?, List.find?_cons, hfirst, valueOf?]

/-- Attributes of other names are passed over. -/
theorem seenValue?_of_ne {a : Attribute} (hn : a.name ≠ n) (as : List Attribute) :
    seenValue? m n (a :: as) = seenValue? m n as := by
  have hname : a.name.toList ≠ n.toList := fun h => hn (String.toList_inj.1 h)
  rw [seenValue?, List.map_cons]
  cases hseen : Attr.seen? m (attrOf a) with
  | none => rw [List.filterMap_cons_none hseen, seenValue?]
  | some b =>
    have hb : b.name = a.name.toList := by
      unfold Attr.seen? at hseen
      split at hseen
      · exact Attr.emptied?_name hseen
      · rw [← Option.some.inj hseen]
        rfl
    rw [List.filterMap_cons_some hseen, valueOf?_cons_of_ne (hb ▸ hname), seenValue?]

/-- A text of the author is found as it was, or tidied if the document is reduced; then nothing at
all is found if nothing is left of it. -/
theorem seenValue?_escaped (hn : n ≠ "alt") (s : String) (as : List Attribute) :
    seenValue? m n (.escaped n s :: as) =
      if m = true ∧ tidy s.toList = [] then seenValue? m n as else some (seen m s.toList) := by
  have hname : n.toList ≠ "alt".toList := fun h => hn (String.toList_inj.1 h)
  have h1 : '"' ∉ escape s.toList := fun h => absurd (escape_marks _ h).1 (by decide)
  have h2 : '\'' ∉ escape s.toList := fun h => (escape_marks _ h).2 rfl
  have hempty : tidy (escape s.toList) = [] ↔ tidy s.toList = [] := by
    constructor
    · intro h
      rw [← decode_tidy_escape, h]
      exact decode_escape []
    · intro h
      rw [tidy_escape, h]
      rfl
  rw [seenValue?, List.map_cons, attrOf_escaped]
  cases m with
  | false =>
    rw [List.filterMap_cons_some (by rfl), valueOf?_cons_of_eq rfl rfl, decode_escape]
    simp [seen]
  | true =>
    by_cases h : tidy s.toList = []
    · have hnone : Attr.seen? true ⟨n.toList, some (escape s.toList)⟩ = none :=
        Attr.reduced?_empty hname (hempty.2 h)
      rw [List.filterMap_cons_none hnone, if_pos ⟨rfl, h⟩, seenValue?]
    · have hsome : Attr.seen? true ⟨n.toList, some (escape s.toList)⟩ =
          some ⟨n.toList, some (tidy (escape s.toList))⟩ :=
        Attr.reduced?_value h1 h2 fun he => h (hempty.1 he)
      rw [List.filterMap_cons_some hsome, valueOf?_cons_of_eq rfl rfl, decode_tidy_escape,
        if_neg fun he => h he.2]
      rfl

/-- A value of the layout is found as it is. -/
theorem seenValue?_fixed {v : String} (hv : isTidy v = true) (he : escape v.toList = v.toList)
    (as : List Attribute) : seenValue? m n (.fixed n v :: as) = some v.toList := by
  have hattr : attrOf (.fixed n v) = ⟨n.toList, some v.toList⟩ := by
    simp [attrOf, Attribute.fixed, Piece.textAll, Piece.text]
  have hseen : Attr.seen? m (attrOf (.fixed n v)) = some ⟨n.toList, some v.toList⟩ := by
    unfold Attr.seen?
    split
    · exact reduced?_fixed hv
    · rw [hattr]
  have hd := decode_escape v.toList
  rw [he] at hd
  rw [seenValue?, List.map_cons, List.filterMap_cons_some hseen, valueOf?_cons_of_eq rfl rfl, hd]

end PagePress.Markup
