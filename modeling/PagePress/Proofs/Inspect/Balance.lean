import PagePress.Proofs.Inspect.Items
import PagePress.Proofs.Inspect.Names
import PagePress.Proofs.Shield.Embedded

/-!
Balance of nested elements. A document that is written from a tree of elements is found to lack
exactly the closing tags that were left out: one finding for each of their names, in the order of
names, with their number (`balance_textAll`). An element whose name holds anything but letters, digits
and hyphens is not counted at all.
-/

namespace PagePress.Inspect

open Text Html

/-! ### Trees -/

/-- A part of a document. An element may lack its closing tag, which otherwise is given by its name
and the white space behind it. -/
inductive Node where
  | text (s : List Char)
  | declaration (s : List Char)
  | comment (body : List Char)
  | void (name rest : List Char)
  | element (name rest : List Char) (children : List Node) (closing : Option (List Char × List Char))
  | raw (e : RawElement)

/-- A tag that is not taken for the opening tag of a script or stylesheet. -/
def Unraw (s : List Char) : Prop := ∀ name ∈ rawNames, tagStart? name (tagText s) = none

instance (s : List Char) : Decidable (Unraw s) :=
  decidable_of_iff (∀ name ∈ rawNames, (tagStart? name (tagText s)).isNone = true) (by simp [Unraw])

namespace Node

mutual

/-- The items of a part of a document. -/
def items : Node → List Item
  | text s => [.text s]
  | declaration s => [.mark ('!' :: s ++ ['>'])]
  | comment m => [.comment m]
  | void n r => [.mark (n ++ r ++ ['>'])]
  | element n r children closing =>
    .mark (n ++ r ++ ['>']) ::
      (itemsAll children ++ (closing.map fun t => Item.mark ('/' :: (t.1 ++ (t.2 ++ ['>'])))).toList)
  | raw e => [.raw e]

/-- The items of some parts of a document. -/
def itemsAll : List Node → List Item
  | [] => []
  | n :: ns => items n ++ itemsAll ns

end

mutual

/-- Texts hold no mark, comments end at their first `-->`, and the tags of an element have one name,
which has a closing tag unless the element is void. -/
def WellFormed : Node → Prop
  | text s => '<' ∉ s
  | declaration s => '<' ∉ s ∧ ¬ "--".toList <+: s
  | comment m => ¬ "-->".toList <:+: m
  | void n r => IsName n ∧ IsRest r ∧ Unraw (n ++ r) ∧ countedName n ∈ voidElements
  | element n r children closing =>
    IsName n ∧ IsRest r ∧ Unraw (n ++ r) ∧ countedName n ∉ voidElements ∧ WellFormedAll children ∧
      ∀ t ∈ closing, IsName t.1 ∧ countedName t.1 = countedName n ∧ ∀ c ∈ t.2, isBlank c = true
  | raw e => Contained e ∧ IsRest e.attrs ∧ ∀ c ∈ e.word ++ e.closingWord, c.isAlpha = true

def WellFormedAll : List Node → Prop
  | [] => True
  | n :: ns => WellFormed n ∧ WellFormedAll ns

end

mutual

/-- The names of the elements that lack a closing tag. -/
def leftOut : Node → List (List Char)
  | element n _ children closing => (if closing.isNone then [n] else []) ++ leftOutAll children
  | _ => []

def leftOutAll : List Node → List (List Char)
  | [] => []
  | n :: ns => leftOut n ++ leftOutAll ns

end

/-- A document as it is written. -/
def textAll (ns : List Node) : List Char := (itemsAll ns).flatMap Item.chars

end Node

/-! ### Items of a tree -/

/-- A tag with a name is no comment. -/
theorem beginsNone_opening {n r : List Char} (hn : IsName n) (h : Unraw (n ++ r)) :
    BeginsNone (n ++ r ++ ['>']) := by
  intro v
  obtain ⟨c, w, rfl, hc⟩ := exists_cons_of_isName hn
  refine ⟨word?_of_ne fun t ht => ?_, fun name hname => ?_⟩
  · rw [(List.cons.inj ht).1] at hc
    exact absurd hc (by decide)
  · by_contra hne
    have hletters := Shield.isTagName_of_mem (mem_names_of_raw hname)
    have := isSome_tagStart?_tagText hletters (Option.isSome_iff_ne_none.2 hne)
    rw [h name hname] at this
    cases this

/-- What does not begin with a letter is no tag of an element. -/
theorem tagStart?_of_not_letter {name : String} (hname : name ∈ rawNames) {c : Char} (hc : ¬ NameLetter c)
    (s : List Char) : tagStart? name ('<' :: c :: s) = none := by
  by_contra hne
  obtain ⟨k, hk⟩ := Option.ne_none_iff_exists'.1 hne
  obtain ⟨w, htext, hw, -⟩ := tagStart?_some hk
  have hcut := k.append_eq
  rw [htext] at hcut
  have hletters := nameLetter_of_forall₂ (Shield.isTagName_of_mem (mem_names_of_raw hname)) hw
  cases w with
  | nil =>
    have hnil : ∀ n ∈ rawNames, n.toList ≠ [] := by decide
    exact hnil name hname (List.forall₂_nil_right_iff.1 hw)
  | cons d w =>
    obtain ⟨rfl, -⟩ := List.cons.inj (List.cons.inj hcut).2
    exact hc (hletters d (by simp))

theorem beginsNone_closing (s : List Char) : BeginsNone ('/' :: s) := fun v =>
  ⟨word?_of_ne fun _ ht => absurd (List.cons.inj ht).1 (by decide), fun _ hname =>
    tagStart?_of_not_letter hname (fun h => h.ne (by decide) rfl) _⟩

theorem beginsNone_declaration {s : List Char} (hs : ¬ "--".toList <+: s) : BeginsNone ('!' :: s ++ ['>']) := by
  refine fun v => ⟨?_, fun name hname => tagStart?_of_not_letter hname (fun h => ?_) _⟩
  · by_contra hne
    obtain ⟨r, hr⟩ := Shield.exists_of_word? (w := "<!--") (Option.isSome_iff_ne_none.2 hne)
    have hr : '<' :: '!' :: (s ++ ['>'] ++ v) = '<' :: '!' :: '-' :: '-' :: r := hr
    have hr : ['-', '-'] ++ r = s ++ '>' :: v := by simpa using hr.symm
    obtain ⟨z, rfl, -⟩ := exists_of_append_eq (by decide) hr
    exact hs ⟨z, rfl⟩
  · exact absurd h.isWord (by decide)

mutual

theorem wellFormed_items : ∀ n : Node, n.WellFormed → ∀ x ∈ n.items, x.WellFormed
  | .text s, h => by simpa [Node.items, Item.WellFormed, Node.WellFormed] using h
  | .declaration s, h => by
    obtain ⟨hs, hdash⟩ : '<' ∉ s ∧ ¬ "--".toList <+: s := by simpa only [Node.WellFormed] using h
    simp only [Node.items, List.mem_singleton, forall_eq]
    exact ⟨by simp [hs], beginsNone_declaration hdash⟩
  | .comment m, h => by simpa [Node.items, Item.WellFormed, Node.WellFormed] using h
  | .void n r, h => by
    obtain ⟨hn, hr, hunraw, -⟩ : IsName n ∧ IsRest r ∧ Unraw (n ++ r) ∧ countedName n ∈ voidElements := by
      simpa only [Node.WellFormed] using h
    simp only [Node.items, List.mem_singleton, forall_eq]
    exact ⟨by simp [mark_not_mem_name hn, hr.1], beginsNone_opening hn hunraw⟩
  | .element n r children closing, h => by
    rw [Node.WellFormed] at h
    obtain ⟨hn, hr, hunraw, -, hchildren, hclosing⟩ := h
    rw [Node.items]
    simp only [List.forall_mem_cons, List.forall_mem_append]
    refine ⟨⟨by simp [mark_not_mem_name hn, hr.1], beginsNone_opening hn hunraw⟩,
      wellFormed_itemsAll children hchildren, fun x hx => ?_⟩
    obtain ⟨t, ht, rfl⟩ := Option.map_eq_some_iff.1 (Option.mem_toList.1 hx)
    obtain ⟨hword, -, hspace⟩ := hclosing t ht
    exact ⟨mark_not_mem_closing hword hspace, beginsNone_closing _⟩
  | .raw e, h => by
    rw [Node.WellFormed] at h
    simp only [Node.items, List.mem_singleton, forall_eq]
    exact h.1

theorem wellFormed_itemsAll : ∀ ns : List Node, Node.WellFormedAll ns → ∀ x ∈ Node.itemsAll ns, x.WellFormed
  | [], _ => by simp [Node.itemsAll]
  | n :: ns, h => by
    rw [Node.WellFormedAll] at h
    rw [Node.itemsAll, List.forall_mem_append]
    exact ⟨wellFormed_items n h.1, wellFormed_itemsAll ns h.2⟩

end

/-! ### Counting -/

/-- The names of opening tags that need a closing one, as they are counted. -/
def needing (os : List (List Char)) : List String :=
  (os.map countedName).filter fun name => !voidElements.contains name

/-- A text in which the closing tags of the given names are too few, and no others. -/
def Lacks (u : List Char) (left : List String) : Prop :=
  ∃ os cs, Lists openName? u os ∧ Lists closeName? u cs ∧
    ∀ m, (needing os).count m = (cs.map countedName).count m + left.count m

theorem needing_append (os os' : List (List Char)) : needing (os ++ os') = needing os ++ needing os' := by
  simp [needing]

theorem lacks_nil : Lacks [] [] := ⟨[], [], fun _ => rfl, fun _ => rfl, fun _ => rfl⟩

theorem Lacks.append {u u' : List Char} {left left' : List String} (h : Lacks u left) (h' : Lacks u' left') :
    Lacks (u ++ u') (left ++ left') := by
  obtain ⟨os, cs, ho, hc, hcount⟩ := h
  obtain ⟨os', cs', ho', hc', hcount'⟩ := h'
  refine ⟨os ++ os', cs ++ cs', ho.append ho', hc.append hc', fun m => ?_⟩
  rw [needing_append, List.map_append, List.count_append, List.count_append, List.count_append, hcount, hcount']
  omega

/-- A text in which no tag is found. -/
theorem lacks_of_passes {u : List Char} (ho : Passes openName? u) (hc : Passes closeName? u) : Lacks u [] :=
  ⟨[], [], lists_of_passes ho, lists_of_passes hc, fun _ => rfl⟩

/-- A tag without a closing one, with the name that it is counted by. -/
def lackedBy (n : List Char) : List String := (countedOf n).map countedName

theorem needing_countedOf {n : List Char} (hvoid : countedName n ∉ voidElements) :
    needing (countedOf n) = lackedBy n := by
  unfold needing lackedBy countedOf
  split
  · simp [hvoid]
  · rfl

/-- An opening tag without its closing one. -/
theorem lacks_opening {n r : List Char} (hn : IsName n) (hr : IsRest r) (hvoid : countedName n ∉ voidElements) :
    Lacks ('<' :: (n ++ r ++ ['>'])) (lackedBy n) :=
  ⟨countedOf n, [], openName_opening hn hr, closeName_opening hn hr, fun m => by
    rw [needing_countedOf hvoid, List.map_nil, List.count_nil, Nat.zero_add]⟩

theorem lacks_void {n r : List Char} (hn : IsName n) (hr : IsRest r) (hvoid : countedName n ∈ voidElements) :
    Lacks ('<' :: (n ++ r ++ ['>'])) [] := by
  refine ⟨countedOf n, [], openName_opening hn hr, closeName_opening hn hr, fun m => ?_⟩
  have hnone : needing (countedOf n) = [] := by
    unfold needing countedOf
    split
    · simp [hvoid]
    · rfl
  rw [hnone]
  rfl

/-- Whether a name is counted does not depend on its case. -/
theorem isCounted_congr {n n' : List Char} (h : countedName n = countedName n') : isCounted n = isCounted n' := by
  have hlower : ∀ c : Char, isNameChar c.toLower = isNameChar c := by
    intro c
    by_cases hascii : c.toNat < 128
    · have key : ∀ n < 128, isNameChar (Char.ofNat n).toLower = isNameChar (.ofNat n) := by decide
      simpa using key c.toNat hascii
    · have : c.toLower = c := by
        unfold Char.toLower
        refine dif_neg fun hupper => hascii ?_
        exact (UInt32.le_iff_toNat_le.1 hupper.2).trans_lt (by decide)
      rw [this]
  have hmap : ∀ n : List Char, isCounted n = (n.map Char.toLower).all isNameChar := by
    intro n
    rw [isCounted, List.all_map]
    congr 1
    funext c
    exact (hlower c).symm
  rw [hmap, hmap, String.ofList_inj.1 h]

theorem lackedBy_congr {n n' : List Char} (h : countedName n = countedName n') : lackedBy n = lackedBy n' := by
  unfold lackedBy countedOf
  rw [isCounted_congr h]
  split
  · simp [h]
  · rfl

/-- An element with both tags lacks what its content lacks. -/
theorem Lacks.element {u : List Char} {left : List String} (h : Lacks u left) {n r n' space : List Char}
    (hn : IsName n) (hr : IsRest r) (hvoid : countedName n ∉ voidElements) (hn' : IsName n')
    (hname : countedName n' = countedName n) (hspace : ∀ c ∈ space, isBlank c = true) :
    Lacks ('<' :: (n ++ r ++ ['>']) ++ (u ++ closingTag n' space)) left := by
  obtain ⟨os, cs, ho, hc, hcount⟩ := h
  refine ⟨countedOf n ++ (os ++ []), [] ++ (cs ++ countedOf n'),
    (openName_opening hn hr).append (ho.append (openName_closing hn' hspace)),
    (closeName_opening hn hr).append (hc.append (closeName_closing hn' hspace)), fun m => ?_⟩
  have hboth : (countedOf n').map countedName = lackedBy n := lackedBy_congr hname
  rw [List.append_nil, List.nil_append, needing_append, needing_countedOf hvoid, List.map_append, hboth,
    List.count_append, List.count_append, hcount]
  omega

theorem toLower_of_sameLetter {a c : Char} (hc : c.isAlpha = true) (h : sameLetter a c = true) :
    c.toLower = a := by
  by_contra hne
  have hascii := Markup.toNat_of_isAlphanum (c := c) (by simp [Char.isAlphanum, hc])
  rw [Markup.sameLetter_of_ascii hascii hne] at h
  cases h

theorem countedName_of_sameLetter {name : String} {w : List Char}
    (h : List.Forall₂ (fun a c => sameLetter a c = true) name.toList w) (hw : ∀ c ∈ w, c.isAlpha = true) :
    countedName w = name := by
  have hmap : w.map Char.toLower = name.toList := by
    generalize name.toList = as at h
    induction h with
    | nil => rfl
    | cons hac _ ih =>
      rw [List.map_cons, toLower_of_sameLetter (hw _ (by simp)) hac, ih fun c hc => hw c (by simp [hc])]
  rw [countedName, hmap, String.ofList_toList]

theorem isName_of_letters {name : String} (hname : name ∈ rawNames) {w : List Char}
    (h : List.Forall₂ (fun a c => sameLetter a c = true) name.toList w) (hw : ∀ c ∈ w, c.isAlpha = true) :
    IsName w := by
  refine ⟨?_, fun c hc => ?_⟩
  · cases w with
    | nil =>
      have hnil : ∀ n ∈ rawNames, n.toList ≠ [] := by decide
      exact absurd (List.forall₂_nil_right_iff.1 h) (hnil name hname)
    | cons c w => exact hw c (by simp)
  · have key : ∀ n < 128, (Char.ofNat n).isAlpha = true → endsName (.ofNat n) = false ∧ Char.ofNat n ≠ '<' := by
      decide
    have hascii := Markup.toNat_of_isAlphanum (c := c) (by simp [Char.isAlphanum, hw c hc])
    simpa using key c.toNat hascii (by simpa using hw c hc)

/-- The names of left out closing tags, as they are counted. -/
def lacking (names : List (List Char)) : List String := names.flatMap lackedBy

mutual

theorem lacks_items : ∀ n : Node, n.WellFormed → Lacks (n.items.flatMap Item.visible) (lacking n.leftOut)
  | .text s, h => by
    rw [Node.WellFormed] at h
    simpa [Node.items, Item.visible, Node.leftOut, lacking] using
      lacks_of_passes (passes_text contextFree_openName atMark_openName h)
        (passes_text contextFree_closeName atMark_closeName h)
  | .declaration s, h => by
    rw [Node.WellFormed] at h
    have hmark : '<' ∉ '!' :: s ++ ['>'] := by simp [h.1]
    simpa [Node.items, Item.visible, Node.leftOut, lacking] using
      lacks_of_passes (passes_openName (by decide) hmark) (passes_closeName (by decide) hmark)
  | .comment m, _ => by simpa [Node.items, Item.visible, Node.leftOut, lacking] using lacks_nil
  | .void n r, h => by
    rw [Node.WellFormed] at h
    simpa [Node.items, Item.visible, Node.leftOut, lacking] using lacks_void h.1 h.2.1 h.2.2.2
  | .element n r children closing, h => by
    rw [Node.WellFormed] at h
    obtain ⟨hn, hr, -, hvoid, hchildren, hclosing⟩ := h
    have ih := lacks_itemsAll children hchildren
    rw [Node.items, Node.leftOut]
    cases closing with
    | none =>
      have hopen := (lacks_opening hn hr hvoid).append ih
      simpa [Item.visible, lacking] using hopen
    | some t =>
      obtain ⟨hword, hname, hspace⟩ := hclosing t rfl
      have helement := ih.element hn hr hvoid hword hname hspace
      simpa [Item.visible, lacking, closingTag] using helement
  | .raw e, h => by
    rw [Node.WellFormed] at h
    obtain ⟨hcontained, hrest, halpha⟩ := h
    obtain ⟨name, hname, he⟩ := hcontained.spells
    have hclosing := forall₂_sameLetter he.opens he.closes
    have halpha' : ∀ c ∈ e.closingWord, c.isAlpha = true := fun c hc => halpha c (List.mem_append_right _ hc)
    have halpha : ∀ c ∈ e.word, c.isAlpha = true := fun c hc => halpha c (List.mem_append_left _ hc)
    have hword : countedName e.word = name := countedName_of_sameLetter he.opens halpha
    have hclosingWord : countedName e.closingWord = name := countedName_of_sameLetter hclosing halpha'
    have hvoid : ∀ m ∈ rawNames, m ∉ voidElements := by decide
    have helement : Lacks ('<' :: (e.word ++ e.attrs ++ ['>']) ++ ([] ++ closingTag e.closingWord e.space)) [] :=
      lacks_nil.element (isName_of_letters hname he.opens halpha) hrest
        (by rw [hword]; exact hvoid name hname) (isName_of_letters hname hclosing halpha')
        (hclosingWord.trans hword.symm) he.space
    simpa [Node.items, Item.visible, Node.leftOut, lacking, RawElement.opening, openingTag,
      RawElement.closing] using helement

theorem lacks_itemsAll : ∀ ns : List Node, Node.WellFormedAll ns →
    Lacks ((Node.itemsAll ns).flatMap Item.visible) (lacking (Node.leftOutAll ns))
  | [], _ => by simpa [Node.itemsAll, Node.leftOutAll, lacking] using lacks_nil
  | n :: ns, h => by
    rw [Node.WellFormedAll] at h
    rw [Node.itemsAll, Node.leftOutAll, List.flatMap_append]
    have happend := (lacks_items n h.1).append (lacks_itemsAll ns h.2)
    simpa [lacking] using happend

end

/-! ### Names in order -/

theorem eraseReps_loop {α : Type} [BEq α] (a : α) (l acc : List α) :
    List.eraseRepsBy.loop (· == ·) a l acc = acc.reverse ++ (a :: l).eraseReps := by
  show _ = acc.reverse ++ List.eraseRepsBy.loop (· == ·) a l []
  induction l generalizing a acc with
  | nil => simp [List.eraseRepsBy.loop]
  | cons b l ih =>
    simp only [List.eraseRepsBy.loop]
    split
    · exact ih a acc
    · rw [ih b (a :: acc), ih b [a]]
      simp

/-- Neighbours that are equal become one. -/
theorem eraseReps_cons_cons {α : Type} [BEq α] (a b : α) (l : List α) :
    (a :: b :: l).eraseReps = if a == b then (a :: l).eraseReps else a :: (b :: l).eraseReps := by
  show List.eraseRepsBy.loop (· == ·) a (b :: l) [] = _
  simp only [List.eraseRepsBy.loop]
  split
  · rename_i h
    rw [if_pos h, eraseReps_loop]
    rfl
  · rename_i h
    rw [if_neg (by simpa using h), eraseReps_loop]
    rfl

theorem mem_eraseReps {l : List String} {m : String} : m ∈ l.eraseReps ↔ m ∈ l := by
  induction hn : l.length generalizing l with
  | zero =>
    rw [List.length_eq_zero_iff.1 hn]
    rfl
  | succ n ih =>
    match l with
    | [a] => rfl
    | a :: b :: l =>
      rw [eraseReps_cons_cons]
      split
      · rename_i h
        obtain rfl : a = b := by simpa using h
        rw [ih (by simpa using hn)]
        simp
      · rw [List.mem_cons, ih (by simpa using hn), ← List.mem_cons]

/-- No name stands there twice, and they stand in order. -/
def Ascending (l : List String) : Prop := l.Pairwise fun a b => a ≤ b ∧ a ≠ b

theorem ascending_eraseReps {l : List String} (h : l.Pairwise (· ≤ ·)) : Ascending l.eraseReps := by
  induction hn : l.length generalizing l with
  | zero =>
    rw [List.length_eq_zero_iff.1 hn]
    exact List.Pairwise.nil
  | succ n ih =>
    match l with
    | [a] => exact List.pairwise_singleton ..
    | a :: b :: l =>
      obtain ⟨hab, htail⟩ := List.pairwise_cons.1 h
      obtain ⟨hb, hl⟩ := List.pairwise_cons.1 htail
      rw [eraseReps_cons_cons]
      split
      · exact ih (List.pairwise_cons.2 ⟨fun c hc => hab c (by simp [hc]), hl⟩) (by simpa using hn)
      · rename_i hne
        refine List.pairwise_cons.2 ⟨fun c hc => ?_, ih htail (by simpa using hn)⟩
        have hc := mem_eraseReps.1 hc
        refine ⟨hab c hc, ?_⟩
        rintro rfl
        -- `b` stands between two places of the same name.
        have hba : b ≤ a := (List.mem_cons.1 hc).elim (fun h => h ▸ String.le_refl _) fun h => hb a h
        exact hne (by simpa using String.le_antisymm (hab b (by simp)) hba)

/-- Names in order are known by their members. -/
theorem Ascending.ext {l l' : List String} (h : Ascending l) (h' : Ascending l') (hmem : ∀ m, m ∈ l ↔ m ∈ l') :
    l = l' := by
  have hnodup : ∀ {l : List String}, Ascending l → l.Nodup := fun h => h.imp fun h => h.2
  have hle : ∀ {l : List String}, Ascending l → l.Pairwise (· ≤ ·) := fun h => h.imp fun h => h.1
  exact ((List.perm_ext_iff_of_nodup (hnodup h) (hnodup h')).2 hmem).eq_of_pairwise
    (fun a b _ _ => String.le_antisymm) (hle h) (hle h')

/-- Some names in order, each of them once. -/
def inOrder (l : List String) : List String := (l.mergeSort fun a b => a ≤ b).eraseReps

theorem ascending_inOrder (l : List String) : Ascending (inOrder l) := by
  refine ascending_eraseReps ?_
  have hsorted : (l.mergeSort fun a b => decide (a ≤ b)).Pairwise fun a b => decide (a ≤ b) = true :=
    List.pairwise_mergeSort
      (fun a b c hab hbc => by
        simp only [decide_eq_true_eq] at hab hbc ⊢
        exact String.le_trans hab hbc)
      (fun a b => by simpa using String.le_total a b) l
  simpa using hsorted

theorem mem_inOrder {l : List String} {m : String} : m ∈ inOrder l ↔ m ∈ l := by
  rw [inOrder, mem_eraseReps, List.mem_mergeSort]

theorem inOrder_nil : inOrder [] = [] := by
  rw [inOrder, List.mergeSort_nil]
  rfl

theorem inOrder_singleton (m : String) : inOrder [m] = [m] := by
  rw [inOrder, List.mergeSort_singleton]
  rfl

/-! ### Findings -/

/-- Where too few closing tags of some names stand, the tags of these names do not balance, and no
others. -/
theorem Lacks.unbalanced {u : List Char} {left : List String} (h : Lacks u left) :
    unbalanced u = (inOrder left).map fun name => .unclosed name (left.count name) := by
  obtain ⟨os, cs, ho, hc, hcount⟩ := h
  have hopened : opened u = needing os := by
    have hos := ho []
    rw [List.append_nil] at hos
    rw [opened, hos]
    simp [needing, findAll]
  have hclosed : closed u = cs.map countedName := by
    have hcs := hc []
    rw [List.append_nil] at hcs
    rw [closed, hcs]
    simp [findAll]
  have hbalance : ∀ m, balanceOf (opened u) (closed u) m =
      if m ∈ left then some (.unclosed m (left.count m)) else none := by
    intro m
    simp only [balanceOf, hopened, hclosed, hcount]
    by_cases hm : m ∈ left
    · have hpos := List.count_pos_iff.2 hm
      rw [if_pos (by omega), if_pos hm, Nat.add_sub_cancel_left]
    · rw [List.count_eq_zero.2 hm, if_neg hm, if_neg (by omega), if_neg (by omega)]
  have hnames : (inOrder (opened u ++ closed u)).filter (· ∈ left) = inOrder left := by
    refine Ascending.ext ((ascending_inOrder _).filter _) (ascending_inOrder _) fun m => ?_
    rw [List.mem_filter, mem_inOrder, mem_inOrder, List.mem_append, decide_eq_true_eq]
    refine ⟨And.right, fun hm => ⟨.inl ?_, hm⟩⟩
    rw [hopened, ← List.count_pos_iff, hcount]
    have := List.count_pos_iff.2 hm
    omega
  show (inOrder (opened u ++ closed u)).filterMap (balanceOf (opened u) (closed u)) = _
  rw [funext hbalance, ← hnames, ← List.filterMap_eq_map, List.filterMap_filter]
  simp

/-- What the inspection of a tree finds about balance: the closing tags that were left out, by name. -/
theorem balance_textAll {ns : List Node} (h : Node.WellFormedAll ns) :
    (inspect (Node.textAll ns)).filter (fun f => subject f = .balance) =
      (inOrder (lacking (Node.leftOutAll ns))).map fun name =>
        .unclosed name ((lacking (Node.leftOutAll ns)).count name) := by
  rw [filter_subject]
  show unbalanced (markupOnly ((Node.itemsAll ns).flatMap Item.chars)) = _
  rw [markupOnly_chars (wellFormed_itemsAll ns h), (lacks_itemsAll ns h).unbalanced]

theorem message_unclosed_one (name : String) :
    (Finding.unclosed name 1).message = "Unclosed tag: " ++ name ++ " (1 unclosed)" := by
  have hnumber : " (" ++ toString 1 ++ " unclosed)" = " (1 unclosed)" := by decide
  show "Unclosed tag: " ++ name ++ " (" ++ toString 1 ++ " unclosed)" = _
  rw [← hnumber]
  simp only [String.append_assoc]

/-- A tree with all its closing tags is found to be balanced, and the one that is left out of a tree is
found by its name. -/
theorem balance_of_leftOut {ns : List Node} (h : Node.WellFormedAll ns) :
    (Node.leftOutAll ns = [] → (inspect (Node.textAll ns)).filter (fun f => subject f = .balance) = []) ∧
      ∀ n, Node.leftOutAll ns = [n] → isCounted n = true →
        ((inspect (Node.textAll ns)).filter fun f => subject f = .balance).map Finding.message =
          ["Unclosed tag: " ++ countedName n ++ " (1 unclosed)"] := by
  rw [balance_textAll h]
  refine ⟨fun hnone => ?_, fun n hone hn => ?_⟩
  · rw [hnone, lacking, List.flatMap_nil, inOrder_nil, List.map_nil]
  have hlacking : lacking (Node.leftOutAll ns) = [countedName n] := by
    rw [hone]
    simp [lacking, lackedBy, countedOf, hn]
  have hcount : [countedName n].count (countedName n) = 1 := by simp
  rw [hlacking, inOrder_singleton, List.map_singleton, List.map_singleton, hcount, message_unclosed_one]

/-- A script with a comment and a tag in its text. -/
def sampleScript : RawElement where
  word := "script".toList
  attrs := []
  body := "a('<b>')<!-- <p> -->".toList
  closingWord := "SCRIPT".toList
  space := [' ']

/-- A document with a script, a comment that mentions one, and a paragraph with or without its closing
tag. -/
def sampleTree (closing : Option (List Char × List Char)) : List Node :=
  [.declaration "DOCTYPE html".toList,
    .element "html".toList [] [.comment " <script> ".toList, .raw sampleScript,
      .element "Div".toList " class='a'".toList
        [.element "p".toList [] [.text "1 > 0".toList] closing, .void "br".toList "/".toList]
        (some ("div".toList, []))]
      (some ("html".toList, ['\n']))]

theorem contained_sampleScript : Contained sampleScript := by
  have hbody : replaceAll anyComment? sampleScript.body = "a('<b>')".toList := by decide +kernel
  refine ⟨by decide, ?_, "script", by decide, ?_⟩
  · rw [hbody]
    decide
  · have hcloseless : Closeless "script" "a('<b>')".toList := by decide
    refine spells_of_closeless (Shield.isTagName_of_mem (by decide)) (withoutComments sampleScript) ?_ (by decide) rfl ?_ (by decide) ?_
    · decide
    · decide
    · rw [withoutComments, hbody]
      exact hcloseless

theorem wellFormed_sampleTree {closing : Option (List Char × List Char)}
    (h : ∀ t ∈ closing, IsName t.1 ∧ countedName t.1 = countedName "p".toList ∧ ∀ c ∈ t.2, isBlank c = true) :
    Node.WellFormedAll (sampleTree closing) := by
  simp only [sampleTree, Node.WellFormedAll, Node.WellFormed, Option.mem_def, Option.some.injEq, forall_eq']
  refine ⟨by decide, ⟨by decide, by decide, by decide, by decide, ⟨by decide, ⟨contained_sampleScript,
    by decide, by decide⟩, ⟨by decide, by decide, by decide, by decide, ⟨⟨by decide, by decide, by decide,
      by decide, by decide, h⟩, by decide, trivial⟩, by decide⟩, trivial⟩, by decide⟩, trivial⟩

/-- In the sample the closing tag of the paragraph is missed, and nothing else. -/
theorem balance_sampleTree :
    (Node.WellFormedAll (sampleTree (some ("p".toList, []))) ∧
      Node.leftOutAll (sampleTree (some ("p".toList, []))) = [] ∧
      (inspect (Node.textAll (sampleTree (some ("p".toList, []))))).filter
        (fun f => subject f = .balance) = []) ∧
    Node.WellFormedAll (sampleTree none) ∧ Node.leftOutAll (sampleTree none) = ["p".toList] ∧
      ((inspect (Node.textAll (sampleTree none))).filter fun f => subject f = .balance).map Finding.message =
        ["Unclosed tag: p (1 unclosed)"] := by
  have hwhole : Node.WellFormedAll (sampleTree (some ("p".toList, []))) :=
    wellFormed_sampleTree fun t ht => by
      obtain rfl := Option.some.inj ht
      decide
  have hlack : Node.WellFormedAll (sampleTree none) := wellFormed_sampleTree (by simp)
  refine ⟨⟨hwhole, by decide, (balance_of_leftOut hwhole).1 (by decide)⟩, hlack, by decide, ?_⟩
  exact (balance_of_leftOut hlack).2 "p".toList (by decide) (by decide)

end PagePress.Inspect
