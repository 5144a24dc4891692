import Mathlib.Data.List.Count
import PagePress.Proofs.Inspect.Names
import PagePress.Proofs.Markup.Reads
import PagePress.Proofs.Markup.Tree

/-!
Counting the tags of a document. The inspection finds the name of each opening tag and of each
closing tag of a well-formed document, in order and nothing else, so a balanced document is found
to be balanced.
-/

namespace PagePress.Markup

open Text Html

/-! ### Lists of values -/

section

variable {α : Type} {r : Recognizer α}

/-- What a scan finds in a document, tag by tag. -/
theorem findAll_text {ε : Type} [Written ε] (hr : ContextFree r) (hm : AtMark r)
    {f : Tag ε → List α} {d : List (Span ε)} (htags : ∀ s ∈ d, Lists r s.tag.text (f s.tag))
    (htexts : ∀ s ∈ d, '<' ∉ s.after) : findAll r (text d) = (d.map Span.tag).flatMap f := by
  induction d with
  | nil => simp [findAll]
  | cons s d ih =>
    have htag := htags s (by simp)
    have htext := lists_of_passes (passes_text hr hm (htexts s (by simp)))
    rw [text_cons, htag, htext, ih (fun t ht => htags t (by simp [ht])) fun t ht =>
      htexts t (by simp [ht])]
    simp

end

/-! ### Names -/

theorem isName_inspect {n : List Char} (hn : isName n = true) :
    Inspect.IsName n ∧ Inspect.isCounted n = true := by
  have key : ∀ c, isNameChar c = true →
      Inspect.isNameChar c = true ∧ Inspect.endsName c = false ∧ c ≠ '<' := by
    intro c hc
    have : ∀ n < 128, isNameChar (.ofNat n) = true →
        Inspect.isNameChar (.ofNat n) = true ∧ Inspect.endsName (.ofNat n) = false ∧ Char.ofNat n ≠ '<' := by
      decide
    simpa using this c.toNat (toNat_of_isNameChar hc) (by simpa using hc)
  have hall := all_of_isName hn
  refine ⟨⟨?_, fun c hc => (key c (hall c hc)).2⟩, List.all_eq_true.2 fun c hc => (key c (hall c hc)).1⟩
  cases n with
  | nil => cases hn
  | cons a n => exact isAlpha_of_isLower (Bool.and_eq_true_iff.1 hn).1

theorem endsName_of_isNameEnd {c : Char} (h : isNameEnd c = true) : Inspect.endsName c = true := by
  rcases (by simpa [isNameEnd] using h : c = ' ' ∨ c = '>') with rfl | rfl <;> decide

theorem isRest_attrs {attrs : List Attr} (ha : ∀ a ∈ attrs, a.WellFormed) :
    Inspect.IsRest (attrs.flatMap Attr.text) := by
  refine ⟨not_mem_of_textChars (isTextChar_attrs ha), close_not_mem_attrs ha, ?_⟩
  obtain ⟨c, w, hcw, hc⟩ := exists_nameEnd attrs []
  rw [hcw]
  exact endsName_of_isNameEnd hc

section

variable {n : List Char} (hn : isName n = true) {attrs : List Attr}
include hn

theorem countedOf_of_isName : Inspect.countedOf n = [n] := if_pos (isName_inspect hn).2

theorem openName_opening (ha : ∀ a ∈ attrs, a.WellFormed) :
    Lists Inspect.openName? (openingText n attrs) [n] :=
  countedOf_of_isName hn ▸ Inspect.openName_opening (isName_inspect hn).1 (isRest_attrs ha)

theorem closeName_opening (ha : ∀ a ∈ attrs, a.WellFormed) :
    Lists Inspect.closeName? (openingText n attrs) [] :=
  Inspect.closeName_opening (isName_inspect hn).1 (isRest_attrs ha)

theorem openName_closing : Lists Inspect.openName? (closingText n) [] :=
  Inspect.openName_closing (isName_inspect hn).1 (List.forall_mem_nil _)

/-- A closing tag is taken as a whole. -/
theorem closeName?_gives (v : List Char) : ∃ k : Cut (closingText n ++ v),
    Inspect.closeName? none (closingText n ++ v) = some (n, k) ∧ k.text = closingText n :=
  Inspect.closeName?_gives (isName_inspect hn).1 (List.forall_mem_nil _) (isName_inspect hn).2 v

theorem closeName_closing : Lists Inspect.closeName? (closingText n) [n] :=
  countedOf_of_isName hn ▸ Inspect.closeName_closing (isName_inspect hn).1 (List.forall_mem_nil _)

end

/-! ### Documents -/

variable {d : List (Span Element)}

/-- The opening tags of a document, when its scripts and stylesheets are empty. -/
theorem findAll_openName (hd : WellFormed d) (he : ∀ s ∈ d, ∀ e, s.tag = .sealed e → e.content = []) :
    findAll Inspect.openName? (text d) = (d.map Span.tag).flatMap Tag.opened := by
  refine findAll_text Inspect.contextFree_openName Inspect.atMark_openName (fun s hs => ?_) fun s hs =>
    not_mem_of_textChars (hd s hs).after
  have hempty := he s hs
  obtain ⟨t, a⟩ := s
  have ht := (hd _ hs).tag
  cases t with
  | declaration t =>
    obtain rfl := ht
    exact lists_of_passes (Inspect.passes_openName (c := '!') (by decide) (u := "DOCTYPE html>".toList) (by decide))
  | comment t =>
    have := not_mem_of_textChars fun c hc => (ht c hc).1
    exact lists_of_passes (Inspect.passes_openName (c := '!') (by decide) (u := '-' :: '-' :: t ++ ['-', '-', '>'])
      (by simp [this]))
  | opening n attrs => exact openName_opening ht.1 ht.2.2
  | closing n => exact openName_closing ht
  | sealed e =>
    have ht : e.WellFormed := ht
    have := (openName_opening ht.isName ht.attrs).append (openName_closing ht.isName)
    simpa [Tag.text, Tag.opened, Written.text, hempty e rfl] using this

/-- The closing tags of a document, when its scripts and stylesheets are empty. -/
theorem findAll_closeName (hd : WellFormed d) (he : ∀ s ∈ d, ∀ e, s.tag = .sealed e → e.content = []) :
    findAll Inspect.closeName? (text d) = (d.map Span.tag).flatMap Tag.closed := by
  refine findAll_text Inspect.contextFree_closeName Inspect.atMark_closeName (fun s hs => ?_) fun s hs =>
    not_mem_of_textChars (hd s hs).after
  have hempty := he s hs
  obtain ⟨t, a⟩ := s
  have ht := (hd _ hs).tag
  cases t with
  | declaration t =>
    obtain rfl := ht
    exact lists_of_passes (Inspect.passes_closeName (c := '!') (by decide) (u := "DOCTYPE html>".toList) (by decide))
  | comment t =>
    have := not_mem_of_textChars fun c hc => (ht c hc).1
    exact lists_of_passes (Inspect.passes_closeName (c := '!') (by decide) (u := '-' :: '-' :: t ++ ['-', '-', '>'])
      (by simp [this]))
  | opening n attrs => exact closeName_opening ht.1 ht.2.2
  | closing n => exact closeName_closing ht
  | sealed e =>
    have ht : e.WellFormed := ht
    have := (closeName_opening ht.isName ht.attrs).append (closeName_closing ht.isName)
    simpa [Tag.text, Tag.closed, Written.text, hempty e rfl] using this

theorem map_toLower_of_isName {n : List Char} (hn : isName n = true) : n.map Char.toLower = n := by
  have key : ∀ c, isNameChar c = true → c.toLower = c := by
    intro c hc
    have : ∀ n < 128, isNameChar (.ofNat n) = true → (Char.ofNat n).toLower = .ofNat n := by decide
    exact of_ascii (p := fun c => isNameChar c = true → c.toLower = c) this (toNat_of_isNameChar hc) hc
  rw [List.map_congr_left fun c hc => key c (all_of_isName hn c hc), List.map_id']

theorem isName_of_mem_opened {t : Tag Element} (ht : t.WellFormed) {n : List Char} (h : n ∈ t.opened) :
    isName n = true := by
  cases t with
  | opening m attrs => exact List.mem_singleton.1 h ▸ ht.1
  | sealed e =>
    have ht : e.WellFormed := ht
    exact List.mem_singleton.1 h ▸ ht.isName
  | _ => cases h

theorem isName_of_mem_closed {t : Tag Element} (ht : t.WellFormed) {n : List Char} (h : n ∈ t.closed) :
    isName n = true := by
  cases t with
  | closing m => exact List.mem_singleton.1 h ▸ ht
  | sealed e =>
    have ht : e.WellFormed := ht
    exact List.mem_singleton.1 h ▸ ht.isName
  | _ => cases h

theorem countedName_of_isName {n : List Char} (hn : isName n = true) :
    Inspect.countedName n = .ofList n := by
  rw [Inspect.countedName, map_toLower_of_isName hn]

/-- Counting strings is counting the texts they are made of. -/
theorem count_map_ofList (ns : List (List Char)) (m : String) :
    (ns.map String.ofList).count m = ns.count m.toList := by
  have hm : m = String.ofList m.toList := by simp
  conv_lhs => rw [hm]
  exact List.count_map_of_injective ns _ (fun _ _ h => String.ofList_inj.1 h) m.toList

/-- A balanced document is found to be balanced. -/
theorem unbalanced_eq_nil (hd : WellFormed d) (he : ∀ s ∈ d, ∀ e, s.tag = .sealed e → e.content = [])
    (hb : Balanced (d.map Span.tag)) : Inspect.unbalanced (text d) = [] := by
  have hopened : ∀ n ∈ (d.map Span.tag).flatMap Tag.opened, isName n = true := by
    intro n hn
    obtain ⟨t, ht, hn⟩ := List.mem_flatMap.1 hn
    obtain ⟨s, hs, rfl⟩ := List.mem_map.1 ht
    exact isName_of_mem_opened (hd s hs).tag hn
  have hclosed : ∀ n ∈ (d.map Span.tag).flatMap Tag.closed, isName n = true := by
    intro n hn
    obtain ⟨t, ht, hn⟩ := List.mem_flatMap.1 hn
    obtain ⟨s, hs, rfl⟩ := List.mem_map.1 ht
    exact isName_of_mem_closed (hd s hs).tag hn
  have h1 : Inspect.opened (text d) = (((d.map Span.tag).flatMap Tag.opened).map String.ofList).filter
      fun name => !Inspect.voidElements.contains name := by
    rw [Inspect.opened, findAll_openName hd he,
      List.map_congr_left fun n hn => countedName_of_isName (hopened n hn)]
  have h2 : Inspect.closed (text d) = ((d.map Span.tag).flatMap Tag.closed).map String.ofList := by
    rw [Inspect.closed, findAll_closeName hd he,
      List.map_congr_left fun n hn => countedName_of_isName (hclosed n hn)]
  have hcount : ∀ m, (Inspect.opened (text d)).count m = (Inspect.closed (text d)).count m := by
    intro m
    have hm := hb m.toList
    rw [h1, h2, count_map_ofList]
    by_cases hv : m ∈ Inspect.voidElements
    · have hvoid : m.toList ∈ voidNames := List.mem_map.2 ⟨m, hv, rfl⟩
      rw [if_pos hvoid] at hm
      rw [hm, List.count_eq_zero]
      intro hmem
      have := (List.mem_filter.1 hmem).2
      simp [hv] at this
    · rw [if_neg (not_mem_voidNames hv)] at hm
      rw [List.count_filter (by simpa using hv), count_map_ofList, hm]
  have hnone : ∀ m, Inspect.balanceOf (Inspect.opened (text d)) (Inspect.closed (text d)) m = none := by
    intro m
    simp [Inspect.balanceOf, hcount m]
  simp [Inspect.unbalanced, hnone]

end PagePress.Markup
