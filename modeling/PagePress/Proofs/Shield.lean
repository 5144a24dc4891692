import PagePress.Proofs.Markup.Shield

/-!
What a change does around the shielded elements of any text. The segments of a text keep their
elements and number them (`number`); a list of numbered segments spells a text with placeholders
(`slots`), which a scan finds again (`segments_slots`), and, once restored, a text with elements
(`source`). A change is known by the list whose slots it leaves (`around_eq`).
-/

namespace PagePress.Html.Shield

open Text

variable {α : Type}

/-! ### Numbered segments -/

/-- The segments with their elements numbered from `i`. -/
def number (i : Nat) : List (Segment α) → List (Segment Nat)
  | [] => []
  | .plain c :: p => .plain c :: number i p
  | .piece u _ :: p => .piece u i :: number (i + 1) p

/-- The segments without what was read off the elements. -/
def forget (p : List (Segment α)) : List (Segment Unit) :=
  p.map fun
    | .plain c => .plain c
    | .piece u _ => .piece u ()

/-- The text of some segments. -/
def source (p : List (Segment α)) : List Char := p.flatMap Segment.source

/-- The text of some segments with placeholders for the elements. -/
def slots (q : List (Segment Nat)) : List Char :=
  q.flatMap fun
    | .plain c => [c]
    | .piece _ i => placeholder i

@[simp] theorem source_nil : source ([] : List (Segment α)) = [] := rfl

@[simp] theorem source_plain (c : Char) (p : List (Segment α)) :
    source (.plain c :: p) = c :: source p := rfl

@[simp] theorem source_piece (u : List Char) (a : α) (p : List (Segment α)) :
    source (.piece u a :: p) = u ++ source p := rfl

@[simp] theorem source_append (p q : List (Segment α)) : source (p ++ q) = source p ++ source q :=
  List.flatMap_append

@[simp] theorem source_map_plain (s : List Char) :
    source (s.map (Segment.plain (α := α))) = s := by
  induction s with
  | nil => rfl
  | cons c s ih => exact congrArg (c :: ·) ih

@[simp] theorem slots_nil : slots [] = [] := rfl

@[simp] theorem slots_plain (c : Char) (q : List (Segment Nat)) :
    slots (.plain c :: q) = c :: slots q := rfl

@[simp] theorem slots_piece (u : List Char) (i : Nat) (q : List (Segment Nat)) :
    slots (.piece u i :: q) = placeholder i ++ slots q := rfl

@[simp] theorem slots_append (p q : List (Segment Nat)) : slots (p ++ q) = slots p ++ slots q :=
  List.flatMap_append

@[simp] theorem slots_map_plain (s : List Char) : slots (s.map .plain) = s := by
  induction s with
  | nil => rfl
  | cons c s ih => exact congrArg (c :: ·) ih

@[simp] theorem forget_plain (c : Char) (p : List (Segment α)) :
    forget (.plain c :: p) = .plain c :: forget p := rfl

@[simp] theorem forget_piece (u : List Char) (a : α) (p : List (Segment α)) :
    forget (.piece u a :: p) = .piece u () :: forget p := rfl

@[simp] theorem forget_append (p q : List (Segment α)) : forget (p ++ q) = forget p ++ forget q :=
  List.map_append

@[simp] theorem forget_map_plain (s : List Char) :
    forget (s.map (Segment.plain (α := α))) = s.map .plain := by
  simp [forget]

@[simp] theorem source_forget (p : List (Segment α)) : source (forget p) = source p := by
  induction p with
  | nil => rfl
  | cons x p ih => cases x <;> simp [ih]

@[simp] theorem source_number (i : Nat) (p : List (Segment α)) : source (number i p) = source p := by
  induction p generalizing i with
  | nil => rfl
  | cons x p ih => cases x <;> simp [number, ih]

@[simp] theorem forget_number (i : Nat) (p : List (Segment α)) : forget (number i p) = forget p := by
  induction p generalizing i with
  | nil => rfl
  | cons x p ih => cases x <;> simp [number, ih]

@[simp] theorem number_forget (i : Nat) (p : List (Segment α)) : number i (forget p) = number i p := by
  induction p generalizing i with
  | nil => rfl
  | cons x p ih => cases x <;> simp [number, ih]

@[simp] theorem number_number (i j : Nat) (p : List (Segment α)) : number i (number j p) = number i p := by
  rw [← number_forget i (number j p), forget_number, number_forget]

@[simp] theorem forget_unit (p : List (Segment Unit)) : forget p = p := by
  induction p with
  | nil => rfl
  | cons x p ih => cases x <;> simp [ih]

@[simp] theorem number_map_plain_append (i : Nat) (s : List Char) (p : List (Segment α)) :
    number i (s.map .plain ++ p) = s.map .plain ++ number i p := by
  induction s with
  | nil => rfl
  | cons c s ih => exact congrArg (_ :: ·) ih

@[simp] theorem number_map_plain (i : Nat) (s : List Char) :
    number i (s.map (Segment.plain (α := α))) = s.map .plain := by
  simpa [number] using number_map_plain_append i s ([] : List (Segment α))

/-- What follows some segments is numbered on from their elements. -/
theorem exists_number_append (i : Nat) (p : List (Segment α)) :
    ∃ j, ∀ q : List (Segment α), number i (p ++ q) = number i p ++ number j q := by
  induction p generalizing i with
  | nil => exact ⟨i, fun _ => rfl⟩
  | cons x p ih =>
    cases x with
    | plain c =>
      obtain ⟨j, hj⟩ := ih i
      exact ⟨j, fun q => congrArg (_ :: ·) (hj q)⟩
    | piece u a =>
      obtain ⟨j, hj⟩ := ih (i + 1)
      exact ⟨j, fun q => congrArg (_ :: ·) (hj q)⟩

/-- Masking a text numbers its segments. -/
theorem maskFrom_eq (i : Nat) (p : List (Segment Unit)) : maskFrom i p = slots (number i p) := by
  induction p generalizing i with
  | nil => rfl
  | cons x p ih => cases x <;> simp [maskFrom, number, ih]

theorem mem_saved {u : List Char} {p : List (Segment Unit)} : u ∈ saved p ↔ Segment.piece u () ∈ p := by
  constructor
  · intro h
    obtain ⟨x, hx, hu⟩ := List.mem_filterMap.1 h
    cases x with
    | plain => cases hu
    | piece v a =>
      obtain rfl := Option.some.inj hu
      exact hx
  · exact fun h => List.mem_filterMap.2 ⟨_, h, rfl⟩

/-- The text of a document with placeholders for its elements. -/
def masked (html : List Char) : List Char := maskFrom 0 (parts html)

theorem source_parts (s : List Char) : source (parts s) = dropNul s := source_segments shielded? _

theorem mem_placeholder {i : Nat} {c : Char} (h : c ∈ placeholder i) :
    c = '<' ∨ c = '\x00' ∨ c.isDigit = true ∨ c = '>' := by
  simp only [placeholder, List.cons_append, List.mem_cons, List.mem_append, List.not_mem_nil,
    or_false] at h
  rcases h with h | h | h | h | h
  · exact .inl h
  · exact .inr (.inl h)
  · exact .inr (.inr (.inl (Nat.isDigit_of_mem_toDigits (by decide) (by decide) h)))
  · exact .inr (.inl h)
  · exact .inr (.inr (.inr h))

/-- What follows its first character in a placeholder. -/
theorem mark_not_mem_tail (i : Nat) : '<' ∉ '\x00' :: (Nat.toDigits 10 i ++ ['\x00', '>']) := by
  have hdigits : '<' ∉ Nat.toDigits 10 i := fun hm =>
    absurd (Nat.isDigit_of_mem_toDigits (by decide) (by decide) hm) (by decide)
  simp [hdigits]

/-- A character that no placeholder holds is a plain one wherever it stands. -/
theorem exists_of_slots_eq {q : List (Segment Nat)} {y x : List Char} {c : Char}
    (hc : ∀ i, c ∉ placeholder i) (h : slots q = y ++ c :: x) :
    ∃ q₁ q₂, q = q₁ ++ .plain c :: q₂ ∧ slots q₁ = y ∧ slots q₂ = x := by
  induction q generalizing y with
  | nil => simp at h
  | cons z q ih =>
    cases z with
    | plain d =>
      cases y with
      | nil =>
        obtain ⟨rfl, rfl⟩ := List.cons.inj h
        exact ⟨[], q, rfl, rfl, rfl⟩
      | cons e y =>
        rw [slots_plain, List.cons_append] at h
        obtain ⟨rfl, hrest⟩ := List.cons.inj h
        obtain ⟨q₁, q₂, rfl, rfl, rfl⟩ := ih hrest
        exact ⟨.plain d :: q₁, q₂, rfl, rfl, rfl⟩
    | piece u i =>
      rw [slots_piece] at h
      obtain ⟨w, rfl, hw⟩ := exists_of_append_eq (hc i) h
      obtain ⟨q₁, q₂, rfl, rfl, rfl⟩ := ih hw
      exact ⟨.piece u i :: q₁, q₂, rfl, rfl, rfl⟩

/-! ### Restoring -/

/-- A segment that restoring finds: a character, other than NUL, or an element under its number. -/
def Found (elements : List (List Char)) : Segment Nat → Prop
  | .plain c => c ≠ '\x00'
  | .piece u i => elements[i]? = some u

/-- No placeholder begins at a character in front of some segments. -/
theorem word?_placeholder_eq_none {q : List (Segment Nat)} (hq : ∀ c, Segment.plain c ∈ q → c ≠ '\x00')
    (c : Char) : Cut.word? "<\x00" (c :: slots q) = none := by
  by_cases hc : c = '<'
  · subst hc
    cases q with
    | nil => rfl
    | cons x q =>
      cases x with
      | plain d =>
        have hd : ('\x00' == d) = false := beq_false_of_ne (hq d (by simp)).symm
        simp [Cut.word?, Cut.wordBy?, hd]
      | piece u i => rfl
  · exact Cut.wordBy?_neg (beq_false_of_ne (Ne.symm hc)) _ _

/-- A scan for placeholders finds those of some segments, if there is no NUL beside them. -/
theorem segments_slots {r : Recognizer α} (hr : ContextFree r)
    (hopen : ∀ s, Cut.word? "<\x00" s = none → r none s = none) {f : List Char → Nat → α}
    {q : List (Segment Nat)} (hq : ∀ c, Segment.plain c ∈ q → c ≠ '\x00')
    (htakes : ∀ u i, Segment.piece u i ∈ q → Takes r (placeholder i) (f u i)) :
    segments r (slots q) = q.map fun
      | .plain c => .plain c
      | .piece u i => .piece (placeholder i) (f u i) := by
  induction q with
  | nil => exact segments_nil
  | cons x q ih =>
    have hrest : ∀ c, Segment.plain c ∈ q → c ≠ '\x00' := fun c hc => hq c (List.mem_cons_of_mem _ hc)
    have ih := ih hrest fun u i hu => htakes u i (List.mem_cons_of_mem _ hu)
    cases x with
    | plain c =>
      rw [slots_plain, segments, segmentsFrom_of_none (hopen _ (word?_placeholder_eq_none hrest c)),
        segmentsFrom_eq_segments hr, ih, List.map_cons]
    | piece u i => rw [slots_piece, htakes u i (by simp), ih, List.map_cons]

/-- Restoring puts every element back in the place of its number. -/
theorem restore_slots {elements : List (List Char)} {q : List (Segment Nat)}
    (hq : ∀ x ∈ q, Found elements x) : restore elements (slots q) = source q := by
  have hscan := segments_slots (r := placeholder? elements.toArray) (f := fun u _ => u) (fun _ _ => rfl)
    (fun s hs => by simp [placeholder?, hs]) (fun c hc => hq _ hc)
    fun u i hu => Markup.takes_placeholder (hq _ hu)
  rw [restore, replaceAll, hscan, List.flatMap_map]
  refine List.flatMap_congr fun x _ => ?_
  cases x <;> rfl

theorem of_drop_eq_cons {l t : List α} {i : Nat} {a : α} (h : l.drop i = a :: t) :
    l[i]? = some a ∧ l.drop (i + 1) = t := by
  constructor
  · rw [← List.head?_drop, h]
    rfl
  · rw [← List.drop_drop, h]
    rfl

/-- Every element is found under its number. -/
theorem found_number {elements : List (List Char)} {p : List (Segment Unit)} {i : Nat}
    (he : elements.drop i = saved p) (hn : '\x00' ∉ source p) :
    ∀ x ∈ number i p, Found elements x := by
  induction p generalizing i with
  | nil => simp [number]
  | cons x p ih =>
    cases x with
    | plain c =>
      rw [source_plain, List.mem_cons, not_or] at hn
      intro y hy
      rcases List.mem_cons.1 hy with rfl | hy
      · exact Ne.symm hn.1
      · exact ih he hn.2 y hy
    | piece u a =>
      rw [source_piece, List.mem_append, not_or] at hn
      obtain ⟨hget, hdrop⟩ := of_drop_eq_cons (t := saved p) he
      intro y hy
      rcases List.mem_cons.1 hy with rfl | hy
      · exact hget
      · exact ih hdrop hn.2 y hy

theorem nul_not_mem_parts (s : List Char) : '\x00' ∉ source (parts s) := by
  rw [source_parts]
  simp [dropNul]

/-- A change around the elements of a text, known by the segments that it leaves: some of those
that were there, and new characters. -/
theorem around_eq {change : List Char → List Char} {s : List Char} {q : List (Segment Nat)}
    (hchange : change (slots (number 0 (parts s))) = slots q)
    (hq : ∀ x ∈ q, x ∈ number 0 (parts s) ∨ ∃ c, x = .plain c ∧ c ≠ '\x00') :
    around change s = source q := by
  rw [around, maskFrom_eq, hchange, restore_slots]
  intro x hx
  rcases hq x hx with hx | ⟨c, rfl, hc⟩
  · exact found_number rfl (nul_not_mem_parts s) x hx
  · exact hc

/-- A change around the elements of a text is known by the segments that it leaves, if it leaves all
elements. -/
theorem around_of_saved {change : List Char → List Char} {h : List Char} {p' : List (Segment Unit)}
    (hchange : change (slots (number 0 (parts h))) = slots (number 0 p')) (hsaved : saved p' = saved (parts h))
    (hnul : '\x00' ∉ source p') : around change h = source p' := by
  rw [around, maskFrom_eq, hchange, ← hsaved, restore_slots (found_number rfl hnul), source_number]

end PagePress.Html.Shield
