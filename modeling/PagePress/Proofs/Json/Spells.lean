import Mathlib.Data.List.DropRight
import PagePress.Json.Reader
import PagePress.Proofs.Json

/-!
Texts that spell a value. Such a text is read as the value whatever follows, so long as what follows
does not go on with the value, and the texts of items and entries make up the text of a list and of a
mapping (`spells_list`, `spells_map`).
-/

namespace PagePress.Json

/-! ### White space -/

theorem skipSpace_append {m : List Char} (hm : ∀ c ∈ m, isSpace c = true) (s : List Char) :
    skipSpace (m ++ s) = skipSpace s :=
  List.dropWhile_append_of_pos hm

theorem skipSpace_cons_of_not {c : Char} (h : isSpace c = false) (s : List Char) :
    skipSpace (c :: s) = c :: s := by
  simp [skipSpace, h]

theorem skipSpace_skipSpace (s : List Char) : skipSpace (skipSpace s) = skipSpace s :=
  List.dropWhile_idempotent isSpace s

/-- Reading a value begins behind the white space. -/
theorem readValue?_congr {s t : List Char} (h : skipSpace s = skipSpace t) (fuel : Nat) :
    readValue? fuel s = readValue? fuel t := by
  cases fuel with
  | zero => rfl
  | succ fuel => rw [readValue?, readValue?, h]

theorem readItems?_congr {s t : List Char} (h : skipSpace s = skipSpace t) (fuel : Nat) :
    readItems? fuel s = readItems? fuel t := by
  cases fuel with
  | zero => rfl
  | succ fuel => rw [readItems?, readItems?, readValue?_congr h]

theorem readEntries?_congr {s t : List Char} (h : skipSpace s = skipSpace t) (fuel : Nat)
    (entries : List (Value × Value)) : readEntries? fuel entries s = readEntries? fuel entries t := by
  cases fuel with
  | zero => rfl
  | succ fuel => rw [readEntries?, readEntries?, h]

/-! ### Values -/

/-- What may follow a value: nothing, white space, or a mark that stands behind values. -/
def Follows (w : List Char) : Prop := ∀ c ∈ w.head?, isSpace c = true ∨ c ∈ [',', ']', '\x7d']

theorem follows_of_skipSpace {w v : List Char} {c : Char} (h : skipSpace w = c :: v)
    (hc : c ∈ [',', ']', '\x7d']) : Follows w := by
  rintro d hd
  cases w with
  | nil => cases hd
  | cons e w =>
    obtain rfl := Option.some.inj hd
    by_cases he : isSpace e = true
    · exact .inl he
    · rw [skipSpace_cons_of_not (by simpa using he)] at h
      exact .inr ((List.cons.inj h).1 ▸ hc)

theorem Follows.not_mem {w : List Char} (h : Follows w) {c : Char} (hc : c ∈ w.head?) :
    c.isDigit = false ∧ c ≠ '.' ∧ c ≠ 'e' ∧ c ≠ 'E' := by
  have key : ∀ c ∈ [' ', '\t', '\n', '\r', ',', ']', '\x7d'],
      c.isDigit = false ∧ c ≠ '.' ∧ c ≠ 'e' ∧ c ≠ 'E' := by decide
  refine key c ?_
  rcases h c hc with h | h
  · simp only [isSpace, Bool.or_eq_true, beq_iff_eq] at h
    rcases h with ((rfl | rfl) | rfl) | rfl <;> simp
  · simp only [List.mem_cons, List.not_mem_nil, or_false] at h ⊢
    tauto

/-- The text is read as the value, whatever may follow it. -/
def Spells (s : List Char) (v : Value) : Prop :=
  ∀ fuel w, s.length < fuel → Follows w → readValue? fuel (s ++ w) = some (v, w)

theorem Spells.indent {s m : List Char} {v : Value} (h : Spells s v) (hm : ∀ c ∈ m, isSpace c = true) :
    Spells (m ++ s) v := by
  intro fuel w hfuel hw
  rw [List.length_append] at hfuel
  rw [List.append_assoc, readValue?_congr (skipSpace_append hm _)]
  exact h fuel w (by omega) hw

/-- A text is read back from its form in a file. -/
theorem spells_quoted (s : List Char) : Spells (quoted s) (.text (.ofList s)) := by
  intro fuel w hfuel _
  obtain ⟨fuel, rfl⟩ := Nat.exists_eq_add_one_of_ne_zero (Nat.ne_of_gt (Nat.zero_lt_of_lt hfuel))
  have hskip : skipSpace (quoted s ++ w) = '"' :: (s.flatMap quotedChar ++ '"' :: w) := by
    rw [quoted, List.cons_append, List.cons_append, skipSpace_cons_of_not (by decide), List.append_assoc]
    rfl
  rw [readValue?, hskip]
  simp only [readString?_flatMap readString?_quotedChar]
  rfl

theorem takeWhile_isDigit {ds w : List Char} (hd : ∀ c ∈ ds, c.isDigit = true) (hw : Follows w) :
    (ds ++ w).takeWhile Char.isDigit = ds ∧ (ds ++ w).dropWhile Char.isDigit = w := by
  have hnone : w.takeWhile Char.isDigit = [] ∧ w.dropWhile Char.isDigit = w := by
    cases w with
    | nil => exact ⟨rfl, rfl⟩
    | cons c w => simp [(hw.not_mem (c := c) rfl).1]
  rw [List.takeWhile_append_of_pos hd, List.dropWhile_append_of_pos hd, hnone.1, hnone.2]
  exact ⟨List.append_nil ds, rfl⟩

theorem readExponent_follows {w : List Char} (h : Follows w) : readExponent w = none := by
  unfold readExponent
  split
  · exact absurd rfl (h.not_mem (c := 'e') rfl).2.2.1
  · exact absurd rfl (h.not_mem (c := 'E') rfl).2.2.2
  · rfl

theorem readNumber?_digits {ds w : List Char} (hne : ds ≠ []) (hd : ∀ c ∈ ds, c.isDigit = true)
    (hw : Follows w) : readNumber? false (ds ++ w) = some (.int (decimal ds), w) := by
  obtain ⟨htake, hdrop⟩ := takeWhile_isDigit hd hw
  have hpoint : ∀ more, w ≠ '.' :: more := by
    rintro more rfl
    exact (hw.not_mem (c := '.') rfl).2.1 rfl
  simp [readNumber?, htake, hdrop, hne, readExponent_follows hw]

/-- A number is read back from its decimal digits. -/
theorem spells_toDigits (n : Nat) : Spells (Nat.toDigits 10 n) (.int n) := by
  intro fuel w hfuel hw
  obtain ⟨fuel, rfl⟩ := Nat.exists_eq_add_one_of_ne_zero (Nat.ne_of_gt (Nat.zero_lt_of_lt hfuel))
  have hdigit : ∀ c ∈ Nat.toDigits 10 n, c.isDigit = true := fun c hc =>
    Nat.isDigit_of_mem_toDigits (by decide) (by decide) hc
  have hread := readNumber?_digits (Nat.toDigits_ne_nil (n := n) (b := 10)) hdigit hw
  have hvalue : decimal (Nat.toDigits 10 n) = n :=
    (Nat.ofDigitChars_eq_foldl (b := 10)).symm.trans Nat.ofDigitChars_ten_toDigits
  obtain ⟨d, ds, hds⟩ := List.exists_cons_of_ne_nil (Nat.toDigits_ne_nil (n := n) (b := 10))
  rw [hvalue, hds] at hread
  have hd : d.isDigit = true := hdigit d (by simp [hds])
  have hne : ∀ c, c.isDigit = false → d ≠ c := by
    rintro c hc rfl
    rw [hd] at hc
    cases hc
  have hspace : isSpace d = false := by
    simp only [isSpace, Bool.or_eq_false_iff, beq_eq_false_iff_ne]
    exact ⟨⟨⟨hne _ (by decide), hne _ (by decide)⟩, hne _ (by decide)⟩, hne _ (by decide)⟩
  have hword : readWord? (d :: (ds ++ w)) = none := by
    unfold readWord?
    split <;> rename_i heq
    · exact absurd (List.cons.inj heq).1 (hne _ (by decide))
    · exact absurd (List.cons.inj heq).1 (hne _ (by decide))
    · exact absurd (List.cons.inj heq).1 (hne _ (by decide))
    · rfl
  rw [hds, readValue?, List.cons_append, skipSpace_cons_of_not hspace]
  split <;> rename_i heq
  · exact absurd (List.cons.inj heq).1 (hne _ (by decide))
  · exact absurd (List.cons.inj heq).1 (hne _ (by decide))
  · exact absurd (List.cons.inj heq).1 (hne _ (by decide))
  · exact absurd (List.cons.inj heq).1 (hne _ (by decide))
  · rw [hword]
    exact hread

/-! ### Lists -/

/-- No value begins with a closing bracket. -/
theorem readValue?_bracket {s w : List Char} (h : skipSpace s = ']' :: w) (fuel : Nat) :
    readValue? fuel s = none := by
  cases fuel with
  | zero => rfl
  | succ fuel =>
    rw [readValue?, h]
    simp [readWord?, readNumber?]

theorem intercalate_comma (s t : List Char) (ts : List (List Char)) :
    List.intercalate [','] (s :: t :: ts) = s ++ ',' :: List.intercalate [','] (t :: ts) := by
  rw [List.intercalate_cons_cons, List.append_assoc]
  rfl

theorem readItems?_intercalate {texts : List (List Char)} {values : List Value}
    (h : List.Forall₂ Spells texts values) (hne : texts ≠ []) {tail w : List Char}
    (htail : skipSpace tail = ']' :: w) {fuel : Nat}
    (hfuel : (List.intercalate [','] texts).length + 1 < fuel) :
    readItems? fuel (List.intercalate [','] texts ++ tail) = some (values, w) := by
  induction h generalizing fuel with
  | nil => exact absurd rfl hne
  | @cons s v texts values hs htexts ih =>
    obtain ⟨fuel, rfl⟩ := Nat.exists_eq_add_one_of_ne_zero (Nat.ne_of_gt (Nat.zero_lt_of_lt hfuel))
    cases htexts with
    | nil =>
      simp only [List.intercalate_singleton] at hfuel ⊢
      rw [readItems?, hs fuel tail (by omega) (follows_of_skipSpace htail (by simp))]
      simp [htail]
    | @cons t u texts values ht htexts =>
      rw [intercalate_comma] at hfuel ⊢
      simp only [List.length_append, List.length_cons] at hfuel
      have hskip : skipSpace (',' :: (List.intercalate [','] (t :: texts) ++ tail)) =
          ',' :: (List.intercalate [','] (t :: texts) ++ tail) := skipSpace_cons_of_not (by decide) _
      have hlt : (List.intercalate [','] (t :: texts)).length + 1 < fuel := by omega
      rw [List.append_assoc, List.cons_append, readItems?,
        hs fuel _ (by omega) (follows_of_skipSpace hskip (by simp))]
      simp only [Option.bind_eq_bind, Option.bind_some, hskip, ih (List.cons_ne_nil _ _) hlt]
      rfl

/-- The texts of some items between brackets spell the list. -/
theorem spells_list {texts : List (List Char)} {values : List Value}
    (h : List.Forall₂ Spells texts values) (hne : texts ≠ []) {m : List Char}
    (hm : ∀ c ∈ m, isSpace c = true) :
    Spells ('[' :: List.intercalate [','] texts ++ m ++ [']']) (.list values) := by
  intro fuel w hfuel _
  obtain ⟨fuel, rfl⟩ := Nat.exists_eq_add_one_of_ne_zero (Nat.ne_of_gt (Nat.zero_lt_of_lt hfuel))
  have htail : skipSpace (m ++ ']' :: w) = ']' :: w := by
    rw [skipSpace_append hm, skipSpace_cons_of_not (by decide)]
  have hlt : (List.intercalate [','] texts).length + 1 < fuel := by
    simp only [List.length_append, List.length_cons, List.length_nil] at hfuel
    omega
  have hitems := readItems?_intercalate h hne htail hlt
  rw [← readItems?_congr (skipSpace_skipSpace _)] at hitems
  rw [readValue?, List.append_assoc, List.append_assoc, List.cons_append,
    skipSpace_cons_of_not (by decide)]
  simp only [List.cons_append, List.nil_append]
  split
  · rename_i rest heq
    obtain ⟨fuel, rfl⟩ : ∃ n, fuel = n + 1 :=
      Nat.exists_eq_add_one_of_ne_zero (by rintro rfl; simp [readItems?] at hitems)
    rw [readItems?, readValue?_bracket (by rw [skipSpace_skipSpace]; exact heq)] at hitems
    cases hitems
  · rw [hitems]
    rfl

/-! ### Mappings -/

/-- The text is an entry of a mapping. -/
def SpellsEntry (s : List Char) (e : String × Value) : Prop :=
  ∃ m t, (∀ c ∈ m, isSpace c = true) ∧ s = m ++ quoted e.1.toList ++ ':' :: t ∧ Spells t e.2

/-- A key that is not there yet goes to the end. -/
theorem putEntry_of_forall_ne {key : String} {entries : List (Value × Value)}
    (h : ∀ e ∈ entries, e.1 ≠ .text key) (v : Value) :
    putEntry key v entries = entries ++ [(.text key, v)] := by
  fun_induction putEntry key v entries with
  | case1 => rfl
  | case2 w rest => exact absurd rfl (h _ List.mem_cons_self)
  | case3 k w rest hk ih => rw [ih fun e he => h e (List.mem_cons_of_mem _ he)]; rfl
  | case4 e rest he ih => rw [ih fun e he => h e (List.mem_cons_of_mem _ he)]; rfl

/-- The entries as the mapping holds them. -/
def entriesOf (entries : List (String × Value)) : List (Value × Value) :=
  entries.map fun e => (.text e.1, e.2)

/-- An entry is read, and then what stands behind it decides. -/
theorem readEntries?_entry {s : List Char} {e : String × Value} (h : SpellsEntry s e) {w : List Char}
    (hw : Follows w) {fuel : Nat} (hfuel : s.length < fuel + 1) (entries : List (Value × Value)) :
    readEntries? (fuel + 1) entries (s ++ w) =
      match skipSpace w with
      | ',' :: rest => readEntries? fuel (putEntry e.1 e.2 entries) rest
      | '\x7d' :: rest => some (putEntry e.1 e.2 entries, rest)
      | _ => none := by
  obtain ⟨m, t, hm, rfl, ht⟩ := h
  have hskip : skipSpace (m ++ quoted e.1.toList ++ ':' :: t ++ w) =
      '"' :: (e.1.toList.flatMap quotedChar ++ '"' :: ':' :: (t ++ w)) := by
    simp only [List.append_assoc, quoted, List.cons_append, skipSpace_append hm]
    exact skipSpace_cons_of_not (by decide) _
  have hlength : t.length < fuel := by
    simp only [List.length_append, List.length_cons, quoted] at hfuel
    omega
  rw [readEntries?, hskip]
  simp only [readString?_flatMap readString?_quotedChar, Option.bind_eq_bind, Option.bind_some,
    skipSpace_cons_of_not (c := ':') (by decide), ht fuel w hlength hw, String.ofList_toList]
  rfl

theorem readEntries?_intercalate {texts : List (List Char)} {entries : List (String × Value)}
    (h : List.Forall₂ SpellsEntry texts entries) (hne : texts ≠ []) (hkeys : (entries.map (·.1)).Nodup)
    {tail w : List Char} (htail : skipSpace tail = '\x7d' :: w) {fuel : Nat}
    (hfuel : (List.intercalate [','] texts).length < fuel) {before : List (Value × Value)}
    (hbefore : ∀ e ∈ entries, ∀ b ∈ before, b.1 ≠ .text e.1) :
    readEntries? fuel before (List.intercalate [','] texts ++ tail) =
      some (before ++ entriesOf entries, w) := by
  induction h generalizing fuel before with
  | nil => exact absurd rfl hne
  | @cons s e texts entries hs htexts ih =>
    obtain ⟨fuel, rfl⟩ := Nat.exists_eq_add_one_of_ne_zero (Nat.ne_of_gt (Nat.zero_lt_of_lt hfuel))
    have hput := putEntry_of_forall_ne (hbefore e List.mem_cons_self) e.2
    cases htexts with
    | nil =>
      simp only [List.intercalate_singleton] at hfuel ⊢
      rw [readEntries?_entry hs (follows_of_skipSpace htail (by simp)) hfuel, htail]
      simp only [hput]
      rfl
    | @cons t f texts entries ht htexts =>
      rw [intercalate_comma] at hfuel ⊢
      simp only [List.length_append, List.length_cons] at hfuel
      have hskip : skipSpace (',' :: (List.intercalate [','] (t :: texts) ++ tail)) =
          ',' :: (List.intercalate [','] (t :: texts) ++ tail) := skipSpace_cons_of_not (by decide) _
      obtain ⟨hfirst, hrest⟩ := List.nodup_cons.1 hkeys
      have hafter : ∀ g ∈ f :: entries, ∀ b ∈ before ++ [(.text e.1, e.2)], b.1 ≠ .text g.1 := by
        intro g hg b hb
        rcases List.mem_append.1 hb with hb | hb
        · exact hbefore g (List.mem_cons_of_mem _ hg) b hb
        · obtain rfl := List.mem_singleton.1 hb
          intro hkey
          exact hfirst (List.mem_map.2 ⟨g, hg, (Value.text.inj hkey).symm⟩)
      rw [List.append_assoc, List.cons_append,
        readEntries?_entry hs (follows_of_skipSpace hskip (by simp)) (by omega), hskip]
      simp only [hput]
      rw [ih (List.cons_ne_nil _ _) hrest (by omega) hafter]
      simp [entriesOf]

/-- The texts of some entries with different keys between braces spell the mapping. -/
theorem spells_map {texts : List (List Char)} {entries : List (String × Value)}
    (h : List.Forall₂ SpellsEntry texts entries) (hne : texts ≠ []) (hkeys : (entries.map (·.1)).Nodup)
    {m : List Char} (hm : ∀ c ∈ m, isSpace c = true) :
    Spells ('\x7b' :: List.intercalate [','] texts ++ m ++ ['\x7d']) (.map (entriesOf entries)) := by
  intro fuel w hfuel _
  obtain ⟨fuel, rfl⟩ := Nat.exists_eq_add_one_of_ne_zero (Nat.ne_of_gt (Nat.zero_lt_of_lt hfuel))
  have htail : skipSpace (m ++ '\x7d' :: w) = '\x7d' :: w := by
    rw [skipSpace_append hm, skipSpace_cons_of_not (by decide)]
  have hlt : (List.intercalate [','] texts).length < fuel := by
    simp only [List.length_append, List.length_cons, List.length_nil] at hfuel
    omega
  have hbefore : ∀ e ∈ entries, ∀ b ∈ ([] : List (Value × Value)), b.1 ≠ .text e.1 := by simp
  have hentries := readEntries?_intercalate h hne hkeys htail hlt hbefore
  rw [← readEntries?_congr (skipSpace_skipSpace _)] at hentries
  rw [readValue?, List.append_assoc, List.append_assoc, List.cons_append,
    skipSpace_cons_of_not (by decide)]
  simp only [List.cons_append, List.nil_append]
  split
  · rename_i rest heq
    obtain ⟨fuel, rfl⟩ : ∃ n, fuel = n + 1 :=
      Nat.exists_eq_add_one_of_ne_zero (by rintro rfl; simp [readEntries?] at hentries)
    rw [readEntries?, skipSpace_skipSpace, heq] at hentries
    simp at hentries
  · rw [hentries]
    rfl

/-- A text that spells a value, with white space behind it, is read as the value. -/
theorem read?_of_spells {s m : List Char} {v : Value} (h : Spells s v)
    (hm : ∀ c ∈ m, isSpace c = true) : read? (s ++ m) = some v := by
  have hfollows : Follows m := fun c hc => .inl (hm c (List.mem_of_mem_head? hc))
  have hskip : skipSpace m = [] := List.dropWhile_eq_nil_iff.2 hm
  rw [read?, h _ m (by simp only [List.length_append]; omega) hfollows]
  simp [hskip]

end PagePress.Json
