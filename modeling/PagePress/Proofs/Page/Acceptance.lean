import PagePress.Proofs.Number
import PagePress.Proofs.Page

/-!
Which values are pages. A page is read by checking one requirement after the other (`Performs`), so
a value is read just when it is readable, and the error that refuses it is that of the first check
that it fails (`read_eq_iff`).
-/

namespace PagePress.Page

open Text Number

/-! ### Checks in turn -/

/-- A requirement and the error that reports that it is not met. -/
structure Check where
  Holds : Prop
  error : PageError

/-- The error is that of the first check that does not hold. -/
def FirstViolated (cs : List Check) (e : PageError) : Prop :=
  ∃ before c after, cs = before ++ c :: after ∧ (∀ d ∈ before, d.Holds) ∧ ¬ c.Holds ∧ c.error = e

/-- The computation makes some checks in turn: it gives a result just when all hold, and otherwise
stops at the first that does not. -/
def Performs {α : Type} (x : Except PageError α) (cs : List Check) : Prop :=
  match x with
  | .ok _ => ∀ c ∈ cs, c.Holds
  | .error e => FirstViolated cs e

theorem FirstViolated.not_forall {cs : List Check} {e : PageError} (h : FirstViolated cs e) :
    ¬ ∀ c ∈ cs, c.Holds := by
  obtain ⟨before, c, after, rfl, -, hc, -⟩ := h
  exact fun hall => hc (hall c (by simp))

theorem FirstViolated.append {cs ds : List Check} {e : PageError} (h : ∀ c ∈ cs, c.Holds)
    (hd : FirstViolated ds e) : FirstViolated (cs ++ ds) e := by
  obtain ⟨before, c, after, rfl, hb, hc, he⟩ := hd
  refine ⟨cs ++ before, c, after, by simp, ?_, hc, he⟩
  intro d hd
  rcases List.mem_append.1 hd with hd | hd
  · exact h d hd
  · exact hb d hd

theorem FirstViolated.append_right {cs : List Check} {e : PageError} (h : FirstViolated cs e)
    (ds : List Check) : FirstViolated (cs ++ ds) e := by
  obtain ⟨before, c, after, rfl, hb, hc, he⟩ := h
  exact ⟨before, c, after ++ ds, by simp, hb, hc, he⟩

theorem FirstViolated.unique {cs : List Check} {e e' : PageError} (h : FirstViolated cs e)
    (h' : FirstViolated cs e') : e = e' := by
  obtain ⟨before, c, after, rfl, hb, hc, rfl⟩ := h
  obtain ⟨before', c', after', hsplit, hb', hc', rfl⟩ := h'
  rcases List.append_eq_append_iff.1 hsplit with ⟨w, rfl, hw⟩ | ⟨w, rfl, hw⟩
  all_goals
    cases w with
    | nil => simp_all
    | cons d w => simp_all

section

variable {α β : Type} {x : Except PageError α} {cs : List Check}

theorem Performs.exists_iff (h : Performs x cs) : (∃ a, x = .ok a) ↔ ∀ c ∈ cs, c.Holds := by
  cases x with
  | ok a => exact ⟨fun _ => h, fun _ => ⟨a, rfl⟩⟩
  | error e => simpa using h.not_forall

theorem Performs.error_iff (h : Performs x cs) (e : PageError) :
    x = .error e ↔ FirstViolated cs e := by
  cases x with
  | ok a => simpa using fun he => he.not_forall h
  | error d =>
    constructor
    · intro he
      injection he with he
      exact he ▸ h
    · intro he
      rw [FirstViolated.unique h he]

theorem performs_ok (a : α) : Performs (.ok a) [] := by simp [Performs]

theorem Performs.bind (h : Performs x cs) {f : α → Except PageError β} {ds : List Check}
    (hf : ∀ a, x = .ok a → Performs (f a) ds) : Performs (x >>= f) (cs ++ ds) := by
  cases x with
  | error e => exact FirstViolated.append_right h ds
  | ok a =>
    have hfa := hf a rfl
    show Performs (f a) (cs ++ ds)
    cases hb : f a with
    | ok b =>
      rw [hb] at hfa
      exact List.forall_mem_append.2 ⟨h, hfa⟩
    | error e =>
      rw [hb] at hfa
      exact FirstViolated.append h hfa

theorem Performs.map (h : Performs x cs) (f : α → β) : Performs (x.map f) cs := by
  cases x <;> exact h

theorem Performs.cons {c : Check} (h : Performs x cs) (hc : c.Holds) : Performs x (c :: cs) := by
  cases x with
  | ok a => exact List.forall_mem_cons.2 ⟨hc, h⟩
  | error e =>
    have hfirst : ∀ d ∈ [c], d.Holds := by simpa using hc
    exact FirstViolated.append hfirst h

theorem performs_error {c : Check} (h : ¬ c.Holds) (cs : List Check) :
    Performs (α := α) (.error c.error) (c :: cs) :=
  ⟨[], c, cs, rfl, by simp, h, rfl⟩

end

/-! ### Mappings, lists, ids and orders -/

/-- The entries of a mapping, and none where there is no mapping. -/
def entriesOf (v : Option Value) : Entries := (v.bind Value.entries?).getD []

/-- Nothing, null or a mapping. -/
inductive MappingOrNone : Option Value → Prop
  | absent : MappingOrNone none
  | null : MappingOrNone (some .null)
  | mapping {v : Value} {entries : Entries} (h : v.entries? = some entries) : MappingOrNone (some v)

/-- Nothing, null or a list, with its items. -/
inductive ListOrNone : Option Value → List Value → Prop
  | absent : ListOrNone none []
  | null : ListOrNone (some .null) []
  | list {v : Value} {items : List Value} (h : v.items? = some items) : ListOrNone (some v) items

/-- A whole number, as a number or as text. A truth value is none. -/
inductive WholeNumber : Value → Prop
  | int (n : Int) : WholeNumber (.int n)
  | float {x : Binary64} (h : x.IsWhole) : WholeNumber (.float x)
  | text {s : String} (h : SpellsInteger s.toList) : WholeNumber (.text s)

/-- An id that is not null, and not blank as text. -/
def HasId (fs : Entries) : Prop :=
  ∃ v, Value.lookup? "id" fs = some v ∧ v ≠ .null ∧ ∃ c ∈ v.display.toList, isBlank c = false

/-- The text of the type is `cta`, apart from white space around it and capitals. -/
def IsCallToAction (fs : Entries) : Prop :=
  ∃ v, Value.lookup? "type" fs = some v ∧ lowered (trimmed v.display) = "cta"

/-! ### Readable values -/

/-- The value is a section that can be read. -/
structure ReadableSection (v : Value) (fs : Entries) : Prop where
  entries : v.entries? = some fs
  id : HasId fs
  order : ∀ n ∈ Value.lookup? "order" fs, WholeNumber n
  data : MappingOrNone (Value.lookup? "data" fs)
  formFields : IsCallToAction fs →
    MappingOrNone (Value.lookup? "formFields" (entriesOf (Value.lookup? "data" fs)))

/-- The value is a page that can be read. -/
structure Readable (v : Value) (fs : Entries) (items : List Value) : Prop where
  entries : v.entries? = some fs
  sections : ListOrNone (Value.lookup? "sections" fs) items
  each : ∀ item ∈ items, ∃ entries, ReadableSection item entries
  globalStyles : MappingOrNone (Value.lookup? "globalStyles" fs)
  metadata : MappingOrNone (Value.lookup? "metadata" fs)

/-! ### The checks of a page -/

/-- A mapping may stand at a place, or nothing. -/
def mappingCheck (place : MappingPlace) (v : Option Value) : Check where
  Holds := MappingOrNone v
  error := .notMapping place (v.getD .null)

/-- The text of the id of a section, trimmed. -/
def idOf (fs : Entries) : String := (optionalTextAt fs "id").getD ""

/-- The checks of the section at a position of the list. -/
def sectionChecks (index : Nat) (item : Value) : List Check :=
  let fs := entriesOf (some item)
  let data := Value.lookup? "data" fs
  [mappingCheck (.sectionEntry index) (some item),
    ⟨HasId fs, .missingId index⟩,
    ⟨∀ n ∈ Value.lookup? "order" fs, WholeNumber n,
      .orderNotInteger (idOf fs) ((Value.lookup? "order" fs).getD (.int index))⟩,
    mappingCheck (.sectionData (idOf fs)) data,
    ⟨IsCallToAction fs → MappingOrNone (Value.lookup? "formFields" (entriesOf data)),
      .notMapping .formFields ((Value.lookup? "formFields" (entriesOf data)).getD .null)⟩]

/-- The checks of a list of sections, from a position on. -/
def listChecks (index : Nat) : List Value → List Check
  | [] => []
  | item :: items => sectionChecks index item ++ listChecks (index + 1) items

/-- The checks of a page in their order. -/
def checks (v : Value) : List Check :=
  let fs := entriesOf (some v)
  let sections := Value.lookup? "sections" fs
  ⟨v.entries?.isSome = true, .pageNotMapping⟩ ::
    ⟨∃ items, ListOrNone sections items, .sectionsNotList⟩ ::
    (listChecks 0 ((sections.bind Value.items?).getD []) ++
      [mappingCheck .globalStyles (Value.lookup? "globalStyles" fs),
        mappingCheck .metadata (Value.lookup? "metadata" fs)])

/-! ### The readers perform the checks -/

theorem MappingOrNone.exists_entries {v : Value} (h : MappingOrNone (some v)) (hv : v ≠ .null) :
    ∃ fs, v.entries? = some fs := by
  cases h with
  | null => exact absurd rfl hv
  | mapping h => exact ⟨_, h⟩

theorem performs_mappingOf (place : MappingPlace) (v : Option Value) :
    Performs (mappingOf place v) [mappingCheck place v] := by
  unfold mappingOf
  split
  · exact (performs_ok []).cons MappingOrNone.absent
  · exact (performs_ok []).cons MappingOrNone.null
  · rename_i v hv
    cases hfs : v.entries? with
    | some fs => exact (performs_ok fs).cons (MappingOrNone.mapping hfs)
    | none =>
      refine performs_error (c := mappingCheck place (some v)) (fun h => ?_) []
      obtain ⟨fs, h⟩ := MappingOrNone.exists_entries h hv
      rw [hfs] at h
      cases h

theorem eq_entriesOf {place : MappingPlace} {v : Option Value} {fs : Entries}
    (h : mappingOf place v = .ok fs) : fs = entriesOf v := by
  unfold mappingOf at h
  split at h
  · injection h with h
    rw [← h]
    rfl
  · injection h with h
    rw [← h]
    rfl
  · rename_i v hv
    cases hfs : v.entries? with
    | some es =>
      rw [hfs] at h
      injection h with h
      rw [← h, entriesOf, Option.bind_some, hfs]
      rfl
    | none =>
      rw [hfs] at h
      cases h

theorem ListOrNone.eq_getD {v : Option Value} {items : List Value} (h : ListOrNone v items) :
    items = (v.bind Value.items?).getD [] := by
  cases h with
  | absent => rfl
  | null => rfl
  | list h => rw [Option.bind_some, h, Option.getD_some]

theorem performs_sectionEntries (fs : Entries) : Performs (sectionEntries fs)
    [⟨∃ items, ListOrNone (Value.lookup? "sections" fs) items, .sectionsNotList⟩] := by
  unfold sectionEntries
  cases hp : present? fs "sections" with
  | none =>
    rcases present?_eq_none.1 hp with hv | hv
    · rw [hv]
      exact (performs_ok []).cons ⟨[], .absent⟩
    · rw [hv]
      exact (performs_ok []).cons ⟨[], .null⟩
  | some v =>
    obtain ⟨hv, hnull⟩ := present?_eq_some.1 hp
    rw [hv]
    dsimp only
    cases hitems : v.items? with
    | some items => exact (performs_ok items).cons ⟨items, .list hitems⟩
    | none =>
      refine performs_error (c := ⟨_, .sectionsNotList⟩) ?_ []
      rintro ⟨items, h⟩
      cases h with
      | null => exact hnull rfl
      | list h =>
        rw [hitems] at h
        cases h

theorem listOrNone_of_sectionEntries {fs : Entries} {items : List Value}
    (h : sectionEntries fs = .ok items) : ListOrNone (Value.lookup? "sections" fs) items := by
  unfold sectionEntries at h
  cases hp : present? fs "sections" with
  | none =>
    rw [hp] at h
    injection h with h
    rcases present?_eq_none.1 hp with hv | hv
    · rw [hv, ← h]
      exact .absent
    · rw [hv, ← h]
      exact .null
  | some v =>
    rw [hp] at h
    rw [(present?_eq_some.1 hp).1]
    dsimp only at h
    cases hitems : v.items? with
    | some items' =>
      rw [hitems] at h
      injection h with h
      exact .list (h ▸ hitems)
    | none =>
      rw [hitems] at h
      cases h

theorem isSome_orderOf? (v : Value) : (orderOf? v).isSome = true ↔ WholeNumber v := by
  constructor
  · intro h
    cases v with
    | int n => exact .int n
    | float x => exact .float ((Binary64.isSome_toInt? x).1 h)
    | text s => exact .text ((isSome_readInteger? s.toList).1 h)
    | _ => cases h
  · intro h
    cases h with
    | int n => rfl
    | float h => exact (Binary64.isSome_toInt? _).2 h
    | text h => exact (isSome_readInteger? _).2 h

/-- The place of a section in the list is a whole number, so a missing order does no harm. -/
theorem wholeNumber_getD (v : Option Value) (index : Nat) :
    WholeNumber (v.getD (.int index)) ↔ ∀ n ∈ v, WholeNumber n := by
  cases v with
  | none => simpa using WholeNumber.int index
  | some v => simp

theorem hasId_iff (fs : Entries) : HasId fs ↔ (optionalTextAt fs "id").isSome = true := by
  simp only [HasId, ← isSome_nonBlank?, ← and_assoc, ← present?_eq_some]
  unfold optionalTextAt
  cases present? fs "id" <;> simp

theorem isCallToAction_iff (fs : Entries) : IsCallToAction fs ↔ kindOf fs = "cta" := by
  unfold IsCallToAction kindOf
  cases Value.lookup? "type" fs with
  | none => simp
  | some v => simp

theorem performs_readCallToAction (data : Entries) : Performs (readCallToAction data)
    [mappingCheck .formFields (Value.lookup? "formFields" data)] :=
  (performs_mappingOf .formFields (Value.lookup? "formFields" data)).bind fun _ _ => performs_ok _

theorem performs_readBlock (fs data : Entries) : Performs (readBlock (kindOf fs) data)
    [⟨IsCallToAction fs → MappingOrNone (Value.lookup? "formFields" data),
      .notMapping .formFields ((Value.lookup? "formFields" data).getD .null)⟩] := by
  rw [isCallToAction_iff]
  unfold readBlock
  split
  · rename_i hkind
    exact (performs_ok _).cons (by simp [hkind])
  · split
    · rename_i hkind
      exact (performs_ok _).cons (by simp [hkind])
    · split
      · rename_i hkind
        simp only [hkind, true_imp_iff]
        exact (performs_readCallToAction data).map _
      · rename_i hkind
        exact (performs_ok _).cons (by simp [hkind])

theorem performs_readSection (index : Nat) (item : Value) :
    Performs (readSection index item) (sectionChecks index item) := by
  refine (performs_mappingOf (.sectionEntry index) (some item)).bind fun fs hfs => ?_
  obtain rfl := eq_entriesOf hfs
  have hid := hasId_iff (entriesOf (some item))
  cases hi : optionalTextAt (entriesOf (some item)) "id" with
  | none =>
    refine performs_error (c := ⟨HasId _, .missingId index⟩) ?_ _
    simp [hid, hi]
  | some id =>
    refine Performs.cons ?_ (hid.2 (by simp [hi]))
    have hgiven := wholeNumber_getD (Value.lookup? "order" (entriesOf (some item))) index
    have hidOf : idOf (entriesOf (some item)) = id := by simp [idOf, hi]
    rw [hidOf, ← hgiven, ← isSome_orderOf?]
    cases ho : orderOf? ((Value.lookup? "order" (entriesOf (some item))).getD (.int index)) with
    | none =>
      dsimp only
      rw [ho]
      exact performs_error (c := ⟨_, .orderNotInteger id _⟩) (by simp) _
    | some order =>
      dsimp only
      rw [ho]
      refine Performs.cons ?_ rfl
      refine (performs_mappingOf (.sectionData id) _).bind fun data hdata => ?_
      obtain rfl := eq_entriesOf hdata
      exact (performs_readBlock _ _).map _

theorem performs_readSections (index : Nat) (items : List Value) :
    Performs (readSections index items) (listChecks index items) := by
  induction items generalizing index with
  | nil => exact performs_ok []
  | cons item items ih =>
    refine (performs_readSection index item).bind fun first _ => ?_
    exact (ih (index + 1)).map (first :: ·)

theorem performs_read (v : Value) : Performs (read v) (checks v) := by
  cases hv : v.entries? with
  | none =>
    unfold read
    rw [hv]
    exact performs_error (c := ⟨v.entries?.isSome = true, .pageNotMapping⟩) (by simp [hv]) _
  | some fs =>
    have hfs : entriesOf (some v) = fs := by
      rw [entriesOf, Option.bind_some, hv]
      rfl
    unfold read
    rw [hv, checks, hfs]
    dsimp only
    refine Performs.cons ?_ (by simp [hv])
    refine (performs_sectionEntries fs).bind fun items hitems => ?_
    rw [← (listOrNone_of_sectionEntries hitems).eq_getD]
    refine (performs_readSections 0 items).bind fun sections _ => ?_
    refine (performs_mappingOf .globalStyles _).bind fun styles _ => ?_
    exact (performs_mappingOf .metadata _).bind fun metadata _ => performs_ok _

/-! ### What passes the checks -/

theorem entriesOf_eq {v : Value} {fs : Entries} (h : v.entries? = some fs) : entriesOf (some v) = fs := by
  rw [entriesOf, Option.bind_some, h, Option.getD_some]

theorem forall_sectionChecks_iff (index : Nat) (item : Value) :
    (∀ c ∈ sectionChecks index item, c.Holds) ↔ ∃ fs, ReadableSection item fs := by
  simp only [sectionChecks, List.forall_mem_cons, List.not_mem_nil, false_imp_iff, implies_true,
    and_true, mappingCheck]
  constructor
  · rintro ⟨hitem, hid, horder, hdata, hfields⟩
    cases hitem with
    | null =>
      obtain ⟨v, hv, -⟩ := hid
      cases hv
    | mapping h =>
      rw [entriesOf_eq h] at hid horder hdata hfields
      exact ⟨_, h, hid, horder, hdata, hfields⟩
  · rintro ⟨fs, hfs⟩
    rw [entriesOf_eq hfs.entries]
    exact ⟨.mapping hfs.entries, hfs.id, hfs.order, hfs.data, hfs.formFields⟩

theorem forall_listChecks_iff (index : Nat) (items : List Value) :
    (∀ c ∈ listChecks index items, c.Holds) ↔ ∀ item ∈ items, ∃ fs, ReadableSection item fs := by
  induction items generalizing index with
  | nil => simp [listChecks]
  | cons item items ih =>
    rw [listChecks, List.forall_mem_append, forall_sectionChecks_iff, ih, List.forall_mem_cons]

/-- A value passes all checks just when it is readable. -/
theorem forall_checks_iff (v : Value) :
    (∀ c ∈ checks v, c.Holds) ↔ ∃ fs items, Readable v fs items := by
  simp only [checks, List.forall_mem_cons, List.forall_mem_append, forall_listChecks_iff,
    List.not_mem_nil, false_imp_iff, implies_true, and_true, mappingCheck]
  constructor
  · rintro ⟨hv, ⟨items, hitems⟩, heach, hstyles, hmetadata⟩
    obtain ⟨fs, hfs⟩ := Option.isSome_iff_exists.1 hv
    rw [← hitems.eq_getD] at heach
    rw [entriesOf_eq hfs] at hitems hstyles hmetadata
    exact ⟨fs, items, hfs, hitems, heach, hstyles, hmetadata⟩
  · rintro ⟨fs, items, h⟩
    rw [entriesOf_eq h.entries, ← h.sections.eq_getD]
    exact ⟨by simp [h.entries], ⟨items, h.sections⟩, h.each, h.globalStyles, h.metadata⟩

/-- A value is read just when it is readable; otherwise the error of the first check that it fails
refuses it. -/
theorem read_eq_iff (v : Value) :
    ((∃ p, read v = .ok p) ↔ ∃ fs items, Readable v fs items) ∧
      ∀ e, read v = .error e ↔ FirstViolated (checks v) e :=
  ⟨(performs_read v).exists_iff.trans (forall_checks_iff v), (performs_read v).error_iff⟩

/-- Null counts as an empty mapping, also in the place of a section: it is no mapping, but it is
refused for the id that it lacks. -/
theorem read_nullSection : Value.null.entries? = none ∧
    read (.map [(.text "sections", .list [.null])]) = .error (.missingId 0) ∧
    ∀ found, read (.map [(.text "sections", .list [.null])]) ≠
      .error (.notMapping (.sectionEntry 0) found) := by
  have hread : read (.map [(.text "sections", .list [.null])]) = .error (.missingId 0) := rfl
  refine ⟨rfl, hread, fun found h => ?_⟩
  rw [hread] at h
  injection h with h
  cases h

end PagePress.Page
