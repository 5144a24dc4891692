import PagePress.Value

/-!
Values that are spelled out as far as their keys are known. A value that has further keys in its
mappings still has under each key what is spelled there (`Fits.holds`, `Fits.exists_fits`).
-/

namespace PagePress

/-- A value that is spelled out as far as its keys are known; further keys have no place in a leaf. -/
inductive Spelling where
  | leaf (v : Value)
  | list (items : List Spelling)
  | map (entries : List (String × Spelling))

namespace Spelling

mutual

/-- The value that has these keys and no others. -/
def value : Spelling → Value
  | leaf v => v
  | list items => .list (values items)
  | map entries => .map (entryValues entries)

def values : List Spelling → List Value
  | [] => []
  | s :: items => s.value :: values items

def entryValues : List (String × Spelling) → List (Value × Value)
  | [] => []
  | (k, s) :: entries => (.text k, s.value) :: entryValues entries

end

mutual

/-- The value has all that is spelled, and possibly further keys. -/
def Widened : Spelling → Value → Prop
  | leaf v, w => w = v
  | list items, w => ∃ ws, w = .list ws ∧ WidenedItems items ws
  | map entries, w => ∃ fs, w = .map fs ∧ (fs.map Prod.fst).Nodup ∧ WidenedEntries entries fs

def WidenedItems : List Spelling → List Value → Prop
  | [], ws => ws = []
  | s :: items, ws => ∃ w rest, ws = w :: rest ∧ s.Widened w ∧ WidenedItems items rest

def WidenedEntries : List (String × Spelling) → List (Value × Value) → Prop
  | [], _ => True
  | (k, s) :: entries, fs => (∃ w, (.text k, w) ∈ fs ∧ s.Widened w) ∧ WidenedEntries entries fs

end

mutual

/-- No key is spelled twice in one mapping. -/
def Distinct : Spelling → Prop
  | leaf _ => True
  | list items => DistinctItems items
  | map entries => (entries.map Prod.fst).Nodup ∧ DistinctEntries entries

def DistinctItems : List Spelling → Prop
  | [] => True
  | s :: items => s.Distinct ∧ DistinctItems items

def DistinctEntries : List (String × Spelling) → Prop
  | [] => True
  | (_, s) :: entries => s.Distinct ∧ DistinctEntries entries

end

theorem keys_entryValues (entries : List (String × Spelling)) :
    (entryValues entries).map Prod.fst = entries.map fun e => .text e.1 := by
  induction entries with
  | nil => rfl
  | cons e entries ih => rw [entryValues, List.map_cons, List.map_cons, ih]

theorem WidenedEntries.mono {entries : List (String × Spelling)} {fs gs : List (Value × Value)}
    (h : WidenedEntries entries fs) (hsub : fs ⊆ gs) : WidenedEntries entries gs := by
  induction entries with
  | nil => trivial
  | cons e entries ih =>
    obtain ⟨⟨w, hw, hs⟩, h⟩ := h
    exact ⟨⟨w, hsub hw, hs⟩, ih h⟩

mutual

theorem widened_value : ∀ s : Spelling, s.Distinct → s.Widened s.value
  | leaf _, _ => rfl
  | list items, h => ⟨_, rfl, widenedItems_values items h⟩
  | map entries, h => by
    refine ⟨_, rfl, ?_, widenedEntries_values entries h.2⟩
    have hkeys : (entryValues entries).map Prod.fst = (entries.map Prod.fst).map Value.text := by
      rw [keys_entryValues, List.map_map]
      rfl
    rw [hkeys]
    exact List.Pairwise.map Value.text (fun _ _ h heq => h (Value.text.inj heq)) h.1

theorem widenedItems_values : ∀ items : List Spelling, DistinctItems items →
    WidenedItems items (values items)
  | [], _ => rfl
  | s :: items, h => ⟨_, _, rfl, widened_value s h.1, widenedItems_values items h.2⟩

theorem widenedEntries_values : ∀ entries : List (String × Spelling), DistinctEntries entries →
    WidenedEntries entries (entryValues entries)
  | [], _ => trivial
  | (_, s) :: entries, h =>
    ⟨⟨_, by simp [entryValues], widened_value s h.1⟩,
      (widenedEntries_values entries h.2).mono (by simp [entryValues])⟩

end

theorem lookup?_cons_of_ne {k : String} {f : Value × Value} {fs : List (Value × Value)}
    (h : f.1 ≠ .text k) : Value.lookup? k (f :: fs) = Value.lookup? k fs := by
  obtain ⟨key, w⟩ := f
  cases key with
  | text k' => exact if_neg fun hk => h (by rw [hk])
  | _ => rfl

theorem lookup?_of_mem {k : String} {v : Value} {fs : List (Value × Value)}
    (hkeys : (fs.map Prod.fst).Nodup) (h : (.text k, v) ∈ fs) : Value.lookup? k fs = some v := by
  induction fs with
  | nil => cases h
  | cons f fs ih =>
    rw [List.map_cons, List.nodup_cons] at hkeys
    rcases List.mem_cons.1 h with rfl | h
    · exact if_pos rfl
    · have hne : f.1 ≠ .text k := fun hf => hkeys.1 (hf ▸ List.mem_map_of_mem (f := Prod.fst) h)
      rw [lookup?_cons_of_ne hne]
      exact ih hkeys.2 h

theorem WidenedEntries.exists_lookup? {entries : List (String × Spelling)} {fs : List (Value × Value)}
    (hkeys : (fs.map Prod.fst).Nodup) (h : WidenedEntries entries fs) {k : String} {s : Spelling}
    (hmem : (k, s) ∈ entries) : ∃ w, Value.lookup? k fs = some w ∧ s.Widened w := by
  induction entries with
  | nil => cases hmem
  | cons e entries ih =>
    obtain ⟨⟨w, hw, hs⟩, h⟩ := h
    rcases List.mem_cons.1 hmem with rfl | hmem
    · exact ⟨w, lookup?_of_mem hkeys hw, hs⟩
    · exact ih h hmem

/-! ### What a mapping has under the keys -/

def text (s : String) : Spelling := leaf (.text s)

def optionalText (s : Option String) : Spelling := leaf ((s.map Value.text).getD .null)

def switch (b : Bool) : Spelling := leaf (.bool b)

/-- The texts and switches of some entries are in a mapping. -/
def Holds (fs : List (Value × Value)) (entries : List (String × Spelling)) : Prop :=
  ∀ e ∈ entries, ∀ v, e.2 = .leaf v → Value.lookup? e.1 fs = some v

section

variable {fs : List (Value × Value)} {k : String} {entries : List (String × Spelling)}

@[simp] theorem holds_nil : Holds fs [] := by simp [Holds]

@[simp] theorem holds_leaf {v : Value} : Holds fs ((k, leaf v) :: entries) ↔
    Value.lookup? k fs = some v ∧ Holds fs entries := by
  simp [Holds]

@[simp] theorem holds_text {s : String} : Holds fs ((k, text s) :: entries) ↔
    Value.lookup? k fs = some (.text s) ∧ Holds fs entries := holds_leaf

@[simp] theorem holds_optionalText {s : Option String} : Holds fs ((k, optionalText s) :: entries) ↔
    Value.lookup? k fs = some ((s.map Value.text).getD .null) ∧ Holds fs entries := holds_leaf

@[simp] theorem holds_switch {b : Bool} : Holds fs ((k, switch b) :: entries) ↔
    Value.lookup? k fs = some (.bool b) ∧ Holds fs entries := holds_leaf

@[simp] theorem holds_map {inner : List (String × Spelling)} :
    Holds fs ((k, map inner) :: entries) ↔ Holds fs entries := by
  simp [Holds]

@[simp] theorem holds_list {items : List Spelling} :
    Holds fs ((k, list items) :: entries) ↔ Holds fs entries := by
  simp [Holds]

end

variable {fs : List (Value × Value)}

/-- A mapping has what some entries spell, and its keys are distinct. -/
structure Fits (fs : List (Value × Value)) (entries : List (String × Spelling)) : Prop where
  keys : (fs.map Prod.fst).Nodup
  entries : WidenedEntries entries fs

theorem exists_fits {entries : List (String × Spelling)} {w : Value} (h : (map entries).Widened w) :
    ∃ fs, w = .map fs ∧ Fits fs entries := by
  obtain ⟨fs, rfl, hkeys, h⟩ := h
  exact ⟨fs, rfl, hkeys, h⟩

theorem Fits.exists_lookup {entries : List (String × Spelling)} (h : Fits fs entries) {k : String}
    {s : Spelling} (hmem : (k, s) ∈ entries) : ∃ w, Value.lookup? k fs = some w ∧ s.Widened w :=
  h.entries.exists_lookup? h.keys hmem

theorem Fits.holds {entries : List (String × Spelling)} (h : Fits fs entries) : Holds fs entries := by
  rintro ⟨k, s⟩ hmem v rfl
  obtain ⟨w, hw, rfl⟩ := h.exists_lookup hmem
  exact hw

/-- A mapping inside a mapping. -/
theorem Fits.exists_fits {entries : List (String × Spelling)} (h : Fits fs entries) {k : String}
    {l : List (String × Spelling)} (hmem : (k, map l) ∈ entries) :
    ∃ gs, Value.lookup? k fs = some (.map gs) ∧ Fits gs l := by
  obtain ⟨w, hw, hmap⟩ := h.exists_lookup hmem
  obtain ⟨gs, rfl, hgs⟩ := Spelling.exists_fits hmap
  exact ⟨gs, hw, hgs⟩

end Spelling

end PagePress
