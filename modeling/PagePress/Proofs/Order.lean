import Mathlib.Data.List.Sort
import PagePress.Page

/-!
Sections in order. The order in which the sections of a page are shown is the only ascending one
in which the sections of each order number stand as they were given (`eq_inOrder`). So it does not
depend on how sections of different order numbers were mixed, and it can be found before or after
sections are left out or numbered anew.
-/

namespace PagePress.Section

/-- The sections with one order number, as they stand. -/
def atOrder (i : Int) (l : List Section) : List Section := l.filter fun s => s.order = i

/-- No section stands after one of a greater order number. -/
def Ascending (l : List Section) : Prop := l.Pairwise fun a b => a.order ≤ b.order

theorem mem_atOrder {i : Int} {l : List Section} {s : Section} :
    s ∈ atOrder i l ↔ s ∈ l ∧ s.order = i := by
  simp [atOrder]

theorem atOrder_filter (i : Int) (p : Section → Bool) (l : List Section) :
    atOrder i (l.filter p) = (atOrder i l).filter p := by
  simp [atOrder, List.filter_filter, Bool.and_comm]

/-! ### What the order of sections is -/

theorem order_trans (a b c : Section) (hab : decide (a.order ≤ b.order) = true)
    (hbc : decide (b.order ≤ c.order) = true) : decide (a.order ≤ c.order) = true := by
  simp only [decide_eq_true_eq] at hab hbc ⊢
  omega

theorem order_total (a b : Section) :
    (decide (a.order ≤ b.order) || decide (b.order ≤ a.order)) = true := by
  simp only [Bool.or_eq_true, decide_eq_true_eq]
  omega

theorem ascending_inOrder (l : List Section) : Ascending (inOrder l) := by
  simpa [inOrder, Ascending] using List.pairwise_mergeSort order_trans order_total l

theorem inOrder_perm (l : List Section) : (inOrder l).Perm l := List.mergeSort_perm ..

/-- Sections of equal order numbers keep their places. -/
theorem atOrder_inOrder (i : Int) (l : List Section) : atOrder i (inOrder l) = atOrder i l := by
  have hsorted : (atOrder i l).Pairwise fun a b => decide (a.order ≤ b.order) = true := by
    rw [List.pairwise_iff_forall_sublist]
    intro a b hab
    have ha := (mem_atOrder.1 (hab.subset (by simp : a ∈ [a, b]))).2
    have hb := (mem_atOrder.1 (hab.subset (by simp : b ∈ [a, b]))).2
    simp only [decide_eq_true_eq]
    omega
  have hsub : (atOrder i l).Sublist (inOrder l) :=
    List.sublist_mergeSort order_trans order_total hsorted List.filter_sublist
  have hsame : atOrder i (atOrder i l) = atOrder i l := by simp [atOrder]
  have hlength : (atOrder i (inOrder l)).length = (atOrder i l).length :=
    ((inOrder_perm l).filter _).length_eq
  have hfilter : (atOrder i (atOrder i l)).Sublist (atOrder i (inOrder l)) := hsub.filter _
  rw [hsame] at hfilter
  exact (hfilter.eq_of_length hlength.symm).symm

theorem mem_iff_of_atOrder {l r : List Section} (h : ∀ i, atOrder i l = atOrder i r) (s : Section) :
    s ∈ l ↔ s ∈ r := by
  have hs := congrArg (s ∈ ·) (h s.order)
  simpa [mem_atOrder] using hs

/-- Ascending sections are known from the sections of each order number. -/
theorem Ascending.eq_of_atOrder {l r : List Section} (hl : Ascending l) (hr : Ascending r)
    (h : ∀ i, atOrder i l = atOrder i r) : l = r := by
  have hmem := mem_iff_of_atOrder h
  induction l generalizing r with
  | nil =>
    cases r with
    | nil => rfl
    | cons b r => exact absurd ((hmem b).2 (by simp)) (by simp)
  | cons a l ih =>
    cases r with
    | nil => exact absurd ((hmem a).1 (by simp)) (by simp)
    | cons b r =>
      -- both heads have the least order number, so they head the same list of equals
      have hab : a.order = b.order := by
        have h1 : a.order ≤ b.order := by
          rcases List.mem_cons.1 ((hmem b).2 (by simp)) with hb | hb
          · rw [hb]
          · exact List.rel_of_pairwise_cons hl hb
        have h2 : b.order ≤ a.order := by
          rcases List.mem_cons.1 ((hmem a).1 (by simp)) with ha | ha
          · rw [ha]
          · exact List.rel_of_pairwise_cons hr ha
        omega
      have hhead := h a.order
      simp only [atOrder, List.filter_cons, decide_true, if_true, hab] at hhead
      obtain ⟨rfl, -⟩ := List.cons.inj hhead
      have htail : ∀ i, atOrder i l = atOrder i r := by
        intro i
        have hi := h i
        by_cases ha : a.order = i
        · simpa [atOrder, List.filter_cons, ha] using hi
        · simpa [atOrder, List.filter_cons, ha] using hi
      rw [ih hl.of_cons hr.of_cons htail (mem_iff_of_atOrder htail)]

/-- The order of sections is the only ascending one that keeps sections of equal order numbers
in their places. -/
theorem eq_inOrder {l r : List Section} (hr : Ascending r) (h : ∀ i, atOrder i r = atOrder i l) :
    r = inOrder l :=
  hr.eq_of_atOrder (ascending_inOrder l) fun i => (h i).trans (atOrder_inOrder i l).symm

/-! ### What it does not depend on -/

theorem inOrder_congr {l r : List Section} (h : ∀ i, atOrder i l = atOrder i r) :
    inOrder l = inOrder r :=
  eq_inOrder (ascending_inOrder l) fun i => (atOrder_inOrder i l).trans (h i)

theorem inOrder_filter (p : Section → Bool) (l : List Section) :
    inOrder (l.filter p) = (inOrder l).filter p :=
  (eq_inOrder ((ascending_inOrder l).filter p) fun i => by
    rw [atOrder_filter, atOrder_inOrder, atOrder_filter]).symm

/-- A section with a new order number. -/
def renumber (f : Int → Int) (s : Section) : Section := { s with order := f s.order }

/-- New order numbers that compare as the old ones make no difference. -/
theorem inOrder_renumber {f : Int → Int} (hf : ∀ i j, i < j → f i < f j) (l : List Section) :
    inOrder (l.map (renumber f)) = (inOrder l).map (renumber f) := by
  have hle : ∀ i j, f i ≤ f j ↔ i ≤ j := by
    intro i j
    rcases Int.lt_trichotomy i j with h | rfl | h
    · have := hf i j h
      omega
    · simp
    · have := hf j i h
      omega
  exact (List.map_mergeSort fun a _ b _ => by simp [renumber, hle]).symm

end PagePress.Section
