import PagePress.Inspect
import PagePress.Proofs.Markup.Opening
import PagePress.Proofs.Shield.Elements

/-!
Names of elements. A tag is told by the letters, digits and hyphens that it begins with. It is found if
these are the whole name of its element; a tag whose name goes on with anything else is passed over.
-/

namespace PagePress.Inspect

open Text Html

/-! ### What begins no tag -/

theorem contextFree_openName : ContextFree openName? := fun _ _ => rfl

theorem contextFree_closeName : ContextFree closeName? := fun _ _ => rfl

theorem atMark_openName : AtMark openName? := by
  intro c s hc
  have : (c == '<') = false := by simpa using hc
  simp [openName?, Cut.char?, this]

theorem atMark_closeName : AtMark closeName? := by
  intro c s hc
  have : ('<' == c) = false := by simpa using hc.symm
  simp [closeName?, Cut.word?, Cut.wordBy?, this]

theorem elementName?_of_first {c : Char} (hc : c.isAlpha = false) (s : List Char) :
    elementName? (c :: s) = none := by
  simp [elementName?, Cut.char?, hc]

/-- What does not begin with a letter is no opening tag. -/
theorem passes_openName {c : Char} (hc : c.isAlpha = false) {u : List Char} (hu : '<' ∉ c :: u) :
    Passes openName? ('<' :: c :: u) := by
  refine passes_tag contextFree_openName atMark_openName (fun v => ?_) hu
  simp [openName?, Cut.char?, elementName?_of_first hc]

/-- What does not begin with a slash is no closing tag. -/
theorem passes_closeName {c : Char} (hc : c ≠ '/') {u : List Char} (hu : '<' ∉ c :: u) :
    Passes closeName? ('<' :: c :: u) := by
  refine passes_tag contextFree_closeName atMark_closeName (fun v => ?_) hu
  have : ('/' == c) = false := by simpa using hc.symm
  simp [closeName?, Cut.word?, Cut.wordBy?, this]

/-! ### Names -/

/-- The name of an element: a letter, and what follows up to white space, a slash or a mark. -/
def IsName (n : List Char) : Prop := n.head?.any Char.isAlpha = true ∧ ∀ c ∈ n, endsName c = false ∧ c ≠ '<'

instance (n : List Char) : Decidable (IsName n) := inferInstanceAs (Decidable (_ ∧ _))

/-- What stands in a tag behind its name. -/
def IsRest (r : List Char) : Prop := '<' ∉ r ∧ '>' ∉ r ∧ (r ++ ['>']).head?.any endsName = true

instance (r : List Char) : Decidable (IsRest r) := inferInstanceAs (Decidable (_ ∧ _ ∧ _))

/-- A name that is counted: letters, digits and hyphens. -/
def isCounted (n : List Char) : Bool := n.all isNameChar

/-- The names that are counted of a tag. -/
def countedOf (n : List Char) : List (List Char) := if isCounted n then [n] else []

section

variable {n : List Char} (hn : IsName n)
include hn

theorem mark_not_mem_name : '<' ∉ n := fun hm => (hn.2 _ hm).2 rfl

theorem exists_cons_of_isName : ∃ c w, n = c :: w ∧ c.isAlpha = true := by
  cases n with
  | nil => exact absurd hn.1 (by decide)
  | cons c w => exact ⟨c, w, rfl, hn.1⟩

theorem mark_not_mem_closing {space : List Char} (hspace : ∀ c ∈ space, isBlank c = true) :
    '<' ∉ '/' :: (n ++ (space ++ ['>'])) := by
  have hblank : '<' ∉ space := fun hm => absurd (hspace _ hm) (by decide)
  simp [mark_not_mem_name hn, hblank]

end

theorem isNameChar_of_endsName {c : Char} (h : endsName c = true) : isNameChar c = false := by
  by_contra hc
  have hc : isNameChar c = true := by simpa using hc
  have hascii : c.toNat < 128 := by
    rcases Bool.or_eq_true_iff.1 hc with hc | hc
    · exact Markup.toNat_of_isAlphanum hc
    · rw [eq_of_beq hc]
      decide
  have key : ∀ n < 128, endsName (.ofNat n) = true → isNameChar (.ofNat n) = false := by decide
  have := key c.toNat hascii
  rw [Char.ofNat_toNat, hc] at this
  exact absurd (this h) (by decide)

theorem exists_cons_of_isRest {r : List Char} (hr : IsRest r) :
    ∃ c w, r ++ ['>'] = c :: w ∧ endsName c = true := by
  obtain ⟨c, w, hcw⟩ := List.exists_cons_of_ne_nil (l := r ++ ['>']) (by simp)
  have hend := hr.2.2
  rw [hcw] at hend
  exact ⟨c, w, hcw, hend⟩

section

variable {n s w : List Char} {c : Char} (hn : IsName n) (hs : s = n ++ c :: w)
include hn hs

/-- A name that is counted is taken up to its end. -/
theorem elementName?_gives (hcounted : isCounted n = true) (hc : endsName c = true) :
    Cut.Gives (elementName? s) n (c :: w) := by
  obtain ⟨a, n, rfl, ha⟩ := exists_cons_of_isName hn
  obtain ⟨letter, hletter, tletter, rletter⟩ := Cut.char?_gives (p := Char.isAlpha) hs ha
  have hall : ∀ d ∈ n, isNameChar d = true := fun d hd => List.all_eq_true.1 hcounted d (by simp [hd])
  obtain ⟨htext, hrest⟩ := Cut.span_gives_cons rletter hall (isNameChar_of_endsName hc)
  refine ⟨letter.andThen (Cut.span isNameChar letter.rest), ?_, ?_, hrest⟩
  · simp only [elementName?, hletter, Option.bind_eq_bind, Option.bind_some, Option.pure_def]
  · rw [Cut.andThen_text, tletter, htext, List.singleton_append]

/-- Of a name that is not counted there is something left. -/
theorem elementName?_of_uncounted (hcounted : isCounted n = false) :
    ∃ k, elementName? s = some k ∧ ∃ d v, k.rest = d :: v ∧ endsName d = false := by
  obtain ⟨a, n, rfl, ha⟩ := exists_cons_of_isName hn
  obtain ⟨letter, hletter, -, rletter⟩ := Cut.char?_gives (p := Char.isAlpha) hs ha
  have hleft : n.dropWhile isNameChar ≠ [] := by
    have hfirst : isNameChar a = true := by simp only [isNameChar, Char.isAlphanum, ha, Bool.true_or]
    obtain ⟨d, hd, hother⟩ : ∃ d ∈ n, isNameChar d = false := by simpa [isCounted, hfirst] using hcounted
    rw [ne_eq, List.dropWhile_eq_nil_iff]
    intro hall
    exact absurd (hall d hd) (by simp [hother])
  obtain ⟨d, y, hdy⟩ := List.exists_cons_of_ne_nil hleft
  have hd : d ∈ n := (List.dropWhile_suffix _).mem (by rw [hdy]; simp)
  have hdrop : (n ++ c :: w).dropWhile isNameChar = d :: (y ++ c :: w) := by
    rw [List.dropWhile_append, hdy]
    rfl
  refine ⟨letter.andThen (Cut.span isNameChar letter.rest), ?_, d, y ++ c :: w,
    (congrArg (List.dropWhile isNameChar) rletter).trans hdrop, (hn.2 d (by simp [hd])).1⟩
  simp only [elementName?, hletter, Option.bind_eq_bind, Option.bind_some, Option.pure_def]

end

/-! ### Tags -/

section

variable {n : List Char} (hn : IsName n)
include hn

/-- An opening tag is found by its name. -/
theorem openName_opening {r : List Char} (hr : IsRest r) :
    Lists openName? ('<' :: (n ++ r ++ ['>'])) (countedOf n) := by
  obtain ⟨c, w, hcw, hc⟩ := exists_cons_of_isRest hr
  have hmark : '<' ∉ c :: w := by
    rw [← hcw]
    simp [hr.1]
  rw [List.append_assoc, hcw, countedOf]
  split
  · rename_i hcounted
    rw [← List.cons_append]
    refine lists_of_gives contextFree_openName (by simp) (fun v => ?_)
      (passes_text contextFree_openName atMark_openName hmark)
    obtain ⟨mark, hfirst, tmark, rmark⟩ := Cut.char?_gives (s := '<' :: n ++ (c :: w ++ v)) (p := (· == '<')) rfl rfl
    obtain ⟨name, hname, tname, rname⟩ := elementName?_gives hn rmark hcounted hc
    have hends : name.rest.head?.any endsName = true := by
      rw [rname]
      exact hc
    refine ⟨mark.andThen name, ?_, by rw [Cut.andThen_text, tmark, tname]; rfl⟩
    simp only [openName?, hfirst, hname, Option.bind_eq_bind, Option.bind_some, if_pos hends, tname]
  · rename_i hcounted
    refine lists_of_passes (passes_tag contextFree_openName atMark_openName (fun v => ?_)
      (by simpa [mark_not_mem_name hn] using hmark))
    obtain ⟨mark, hfirst, -, rmark⟩ := Cut.char?_gives (s := '<' :: (n ++ c :: w ++ v)) (p := (· == '<'))
      (c := '<') (v := n ++ c :: (w ++ v)) (by simp) rfl
    obtain ⟨name, hname, d, u, rname, hd⟩ := elementName?_of_uncounted hn rmark (by simpa using hcounted)
    have hends : ¬ name.rest.head?.any endsName = true := by
      rw [rname]
      simpa using hd
    simp only [openName?, hfirst, hname, Option.bind_eq_bind, Option.bind_some, if_neg hends]

theorem closeName_opening {r : List Char} (hr : IsRest r) :
    Lists closeName? ('<' :: (n ++ r ++ ['>'])) [] := by
  obtain ⟨c, w, rfl, hc⟩ := exists_cons_of_isName hn
  have hname := mark_not_mem_name hn
  refine lists_of_passes (passes_closeName (u := w ++ r ++ ['>']) ?_ ?_)
  · rintro rfl
    exact absurd hc (by decide)
  · simpa [hr.1] using hname

theorem closeName?_of_uncounted {space : List Char} (hcounted : isCounted n = false) (v : List Char) :
    closeName? none (closingTag n space ++ v) = none := by
  obtain ⟨c, w, hcw⟩ := List.exists_cons_of_ne_nil (l := space ++ '>' :: v) (by simp)
  obtain ⟨mark, hmark, -, rmark⟩ := Cut.word?_gives (s := closingTag n space ++ v) (w := "</")
    (v := n ++ c :: w) (by simp [closingTag, ← hcw])
  obtain ⟨name, hname, d, u, rname, hd⟩ := elementName?_of_uncounted hn rmark hcounted
  obtain ⟨⟨hblank, -⟩, hclose⟩ : (isBlank d = false ∧ (d == '/') = false) ∧ (d == '>') = false := by
    simpa only [endsName, Bool.or_eq_false_iff] using hd
  have hnone : Cut.char? (· == '>') (Cut.span isBlank name.rest).rest = none := by
    refine Cut.char?_eq_none ?_
    rw [Cut.span_rest, rname, List.dropWhile_cons_of_neg (by simp [hblank])]
    simpa using hclose
  simp only [closeName?, hmark, hname, hnone, Option.bind_eq_bind, Option.bind_some, Option.bind_none]

variable {space : List Char} (hspace : ∀ c ∈ space, isBlank c = true)
include hspace

theorem openName_closing : Lists openName? (closingTag n space) [] :=
  lists_of_passes (passes_openName (by decide) (mark_not_mem_closing hn hspace))

/-- A closing tag whose name is counted is taken as a whole. -/
theorem closeName?_gives (hcounted : isCounted n = true) (v : List Char) :
    ∃ k : Cut (closingTag n space ++ v), closeName? none (closingTag n space ++ v) = some (n, k) ∧
      k.text = closingTag n space := by
  obtain ⟨c, w, hcw, hc⟩ : ∃ c w, space ++ '>' :: v = c :: w ∧ endsName c = true := by
    cases space with
    | nil => exact ⟨'>', v, rfl, rfl⟩
    | cons c space => exact ⟨c, space ++ '>' :: v, rfl, by simp [endsName, hspace c (by simp)]⟩
  obtain ⟨mark, hmark, tmark, rmark⟩ := Cut.word?_gives (s := closingTag n space ++ v) (w := "</")
    (v := n ++ c :: w) (by simp [closingTag, ← hcw])
  obtain ⟨name, hname, tname, rname⟩ := elementName?_gives hn rmark hcounted hc
  obtain ⟨tspace, rspace⟩ := Cut.span_gives_cons (rname.trans hcw.symm) hspace (by decide)
  obtain ⟨close, hclose, tclose, -⟩ := Cut.char?_gives (p := (· == '>')) rspace rfl
  refine ⟨((mark.andThen name).andThen (Cut.span isBlank name.rest)).andThen close, ?_, ?_⟩
  · simp only [closeName?, hmark, hname, hclose, Option.bind_eq_bind, Option.bind_some, Option.pure_def, tname]
  · show mark.text ++ name.text ++ (Cut.span isBlank name.rest).text ++ close.text = _
    rw [tmark, tname, tspace, tclose]
    simp [closingTag]

/-- A closing tag is found by its name. -/
theorem closeName_closing : Lists closeName? (closingTag n space) (countedOf n) := by
  rw [countedOf]
  split
  · rename_i hcounted
    exact lists_of_takes (takes_of_eq contextFree_closeName (by simp [closingTag])
      (closeName?_gives hn hspace hcounted))
  · rename_i hcounted
    exact lists_of_passes (passes_tag contextFree_closeName atMark_closeName
      (closeName?_of_uncounted hn (by simpa using hcounted)) (mark_not_mem_closing hn hspace))

end

end PagePress.Inspect
