import PagePress.Page.Reading
import PagePress.Proofs.Script.Page
import PagePress.Proofs.Text.Blank

/-!
Pages that were read from a stored page. A text is read as an id when it is not blank, and a field
when it is there and not null (`isSome_nonBlank?`, `present?_eq_some`). A section without an id is
not read, so every section of such a page has one (`Page.id_ne_empty_of_read`).
-/

namespace PagePress

open Text

theorem ne_empty_of_nonBlank? {s t : String} (h : nonBlank? s = some t) : t ≠ "" := by
  unfold nonBlank? at h
  split at h
  · cases h
  · rename_i hne
    obtain rfl := Option.some.inj h
    intro he
    apply hne
    rw [List.isEmpty_iff]
    simpa [trimmed] using congrArg String.toList he

theorem isSome_nonBlank? (s : String) :
    (nonBlank? s).isSome = true ↔ ∃ c ∈ s.toList, isBlank c = false := by
  have hfilter := filter_trim s.toList
  unfold nonBlank?
  split
  · rename_i h
    rw [List.isEmpty_iff.1 h, List.filter_nil, eq_comm, List.filter_eq_nil_iff] at hfilter
    simpa using hfilter
  · rename_i h
    simp only [Option.isSome_some, true_iff]
    obtain ⟨c, t, ht⟩ := List.exists_cons_of_ne_nil (l := trim s.toList) (by simpa using h)
    have hc : isBlank c = false := isBlank_of_mem_head?_trim (by rw [ht]; rfl)
    exact ⟨c, (isInfix_trim s.toList).subset (by simp [ht]), hc⟩

namespace Page

/-! ### Entries that are there -/

theorem present?_eq_some {fs : Entries} {key : String} {v : Value} :
    present? fs key = some v ↔ Value.lookup? key fs = some v ∧ v ≠ .null := by
  unfold present?
  split
  · rename_i h
    simp only [h, Option.some.injEq, reduceCtorEq, false_iff, not_and, not_not]
    exact fun h => h.symm
  · rename_i h
    constructor
    · intro hv
      exact ⟨hv, fun hnull => h (by rw [hv, hnull])⟩
    · exact And.left

theorem present?_eq_none {fs : Entries} {key : String} :
    present? fs key = none ↔ Value.lookup? key fs = none ∨ Value.lookup? key fs = some .null := by
  unfold present?
  split <;> simp_all

/-! ### Ids -/

theorem id_ne_empty_of_readSection {i : Nat} {v : Value} {s : Section} (h : readSection i v = .ok s) :
    s.id ≠ "" := by
  obtain ⟨entries, -, h⟩ := Script.exists_of_bind_eq_ok h
  cases hid : optionalTextAt entries "id" with
  | none =>
    rw [hid] at h
    cases h
  | some id =>
    rw [hid] at h
    have hne : id ≠ "" := by
      obtain ⟨v, -, hv⟩ := Option.bind_eq_some_iff.1 hid
      exact ne_empty_of_nonBlank? hv
    dsimp only at h
    split at h
    · obtain ⟨data, -, h⟩ := Script.exists_of_bind_eq_ok h
      obtain ⟨block, -, h⟩ := Script.exists_of_bind_eq_ok h
      injection h with h
      rw [← h]
      exact hne
    · cases h

theorem id_ne_empty_of_readSections {i : Nat} {vs : List Value} {l : List Section}
    (h : readSections i vs = .ok l) : ∀ s ∈ l, s.id ≠ "" := by
  induction vs generalizing i l with
  | nil =>
    injection h with h
    simp [← h]
  | cons v vs ih =>
    obtain ⟨first, hfirst, h⟩ := Script.exists_of_bind_eq_ok h
    obtain ⟨rest, hrest, h⟩ := Script.exists_of_bind_eq_ok h
    injection h with h
    rw [← h]
    intro s hs
    rcases List.mem_cons.1 hs with rfl | hs
    · exact id_ne_empty_of_readSection hfirst
    · exact ih hrest s hs

/-- Every section of a page that was read has an id. -/
theorem id_ne_empty_of_read {v : Value} {p : Page} (h : read v = .ok p) :
    ∀ s ∈ p.sections, s.id ≠ "" := by
  unfold read at h
  cases hv : v.entries? with
  | none =>
    rw [hv] at h
    cases h
  | some entries =>
    rw [hv] at h
    obtain ⟨items, -, h⟩ := Script.exists_of_bind_eq_ok h
    obtain ⟨sections, hsections, h⟩ := Script.exists_of_bind_eq_ok h
    obtain ⟨styles, -, h⟩ := Script.exists_of_bind_eq_ok h
    obtain ⟨metadata, -, h⟩ := Script.exists_of_bind_eq_ok h
    injection h with h
    rw [← h]
    exact id_ne_empty_of_readSections hsections

end Page

end PagePress
