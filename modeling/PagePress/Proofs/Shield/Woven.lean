import PagePress.Proofs.Number
import PagePress.Proofs.Shield
import PagePress.Proofs.Text.Lines
import PagePress.Reduce.Comments

/-!
Texts woven of gaps and pieces. Around the elements of a document stand gaps, and the same gaps stand
around the placeholders of the masked document; woven with the elements they make up the document again
(`weave_gaps`), woven with placeholders the masked one (`hasSlots_masked`). A change that copies the
placeholders, whatever it makes of the gaps, is a change of the document outside of its elements: what
it leaves is woven again, with each element in the place of its placeholder (`around_of_slots`).
-/

namespace PagePress.Html.Shield

open Text

variable {α : Type}

/-! ### Gaps and pieces -/

/-- The text of some gaps with pieces between them. Behind the last piece follow all gaps that are
left. -/
def weave : (gs pieces : List (List Char)) → List Char
  | gs, [] => gs.flatten
  | [], _ :: _ => []
  | g :: gs, u :: us => g ++ u ++ weave gs us

/-- The texts around the pieces of some segments, one more than there are pieces. -/
def gaps : List (Segment α) → List (List Char)
  | [] => [[]]
  | .plain c :: p => consFirst c (gaps p)
  | .piece _ _ :: p => [] :: gaps p

/-- The segments of a woven text. -/
def interlace : (gs elements : List (List Char)) → List (Segment Unit)
  | gs, [] => gs.flatten.map .plain
  | [], _ :: _ => []
  | g :: gs, u :: us => g.map .plain ++ .piece u () :: interlace gs us

theorem source_interlace (gs us : List (List Char)) : source (interlace gs us) = weave gs us := by
  fun_induction interlace gs us with
  | case1 gs => rw [source_map_plain, weave]
  | case2 => rfl
  | case3 g gs u us ih => simp [weave, ih]

/-- With numbers for its elements a woven text is woven with placeholders. -/
theorem slots_interlace (i : Nat) (gs us : List (List Char)) :
    slots (number i (interlace gs us)) = weave gs ((List.range' i us.length).map placeholder) := by
  fun_induction interlace gs us generalizing i with
  | case1 gs =>
    rw [number_map_plain, slots_map_plain]
    exact (weave.eq_1 gs).symm
  | case2 => rfl
  | case3 g gs u us ih => simp [number, weave, List.range'_succ, ih]

theorem saved_interlace {gs us : List (List Char)} (h : us.length ≤ gs.length) :
    saved (interlace gs us) = us := by
  fun_induction interlace gs us with
  | case1 gs => simp [saved]
  | case2 => cases h
  | case3 g gs u us ih =>
    rw [Markup.saved_plain]
    exact congrArg (u :: ·) (ih (by simpa using h))

theorem length_gaps (p : List (Segment Unit)) : (gaps p).length = (saved p).length + 1 := by
  induction p with
  | nil => rfl
  | cons x p ih =>
    cases x with
    | plain c =>
      cases hp : gaps p with
      | nil =>
        rw [hp] at ih
        cases ih
      | cons g gs =>
        rw [hp] at ih
        rw [gaps, hp]
        exact ih
    | piece u a => exact congrArg (· + 1) ih

/-- Segments are interlaced of their gaps and their elements. -/
theorem interlace_gaps (p : List (Segment Unit)) : interlace (gaps p) (saved p) = p := by
  induction p with
  | nil => rfl
  | cons x p ih =>
    cases x with
    | plain c =>
      have hsaved : saved (.plain c :: p) = saved p := rfl
      obtain ⟨g, gs, hp⟩ := List.exists_cons_of_length_eq_add_one (length_gaps p)
      rw [hp] at ih
      rw [gaps, hp, consFirst, hsaved]
      cases hs : saved p with
      | nil =>
        rw [hs] at ih
        rw [← ih]
        rfl
      | cons u us =>
        rw [hs] at ih
        rw [← ih]
        rfl
    | piece u a => exact congrArg (.piece u () :: ·) ih

theorem weave_gaps (p : List (Segment Unit)) : weave (gaps p) (saved p) = source p := by
  rw [← source_interlace, interlace_gaps]

theorem mem_source_of_mem_gaps {p : List (Segment α)} {g : List Char} {c : Char} (hg : g ∈ gaps p)
    (hc : c ∈ g) : c ∈ source p := by
  induction p generalizing g with
  | nil =>
    obtain rfl := List.mem_singleton.1 hg
    cases hc
  | cons x p ih =>
    cases x with
    | plain d =>
      rcases exists_of_mem_consFirst hg hc with rfl | ⟨l, hl, hcl⟩
      · simp
      · simp [ih hl hcl]
    | piece u a =>
      rcases List.mem_cons.1 hg with rfl | hg
      · cases hc
      · simp [ih hg hc]

theorem mem_source_of_mem_saved {p : List (Segment Unit)} {u : List Char} {c : Char} (hu : u ∈ saved p)
    (hc : c ∈ u) : c ∈ source p :=
  List.mem_flatMap.2 ⟨_, mem_saved.1 hu, hc⟩

theorem mem_weave {gs us : List (List Char)} {c : Char} (h : c ∈ weave gs us) :
    (∃ g ∈ gs, c ∈ g) ∨ ∃ u ∈ us, c ∈ u := by
  fun_induction weave gs us with
  | case1 gs => exact .inl (List.mem_flatten.1 h)
  | case2 => cases h
  | case3 g gs u us ih =>
    simp only [List.mem_append] at h
    rcases h with (h | h) | h
    · exact .inl ⟨g, by simp, h⟩
    · exact .inr ⟨u, by simp, h⟩
    · rcases ih h with ⟨g', hg', h⟩ | ⟨u', hu', h⟩
      · exact .inl ⟨g', by simp [hg'], h⟩
      · exact .inr ⟨u', by simp [hu'], h⟩

/-! ### Placeholders -/

/-- Recognises a placeholder and reads its number, whether there is an element of this number or
not. -/
def slot? : Recognizer Nat := fun _ s => do
  let opening ← Cut.word? "<\x00" s
  let digits ← Cut.spanSome? isDigit opening.rest
  let closing ← Cut.word? "\x00>" digits.rest
  return (Number.decimalValue digits.text, (opening.andThen digits).andThen closing)

/-- The placeholders of the first `n` numbers stand in a text, each of them once and in their order, and
no other NUL; the gaps are what stands around them. -/
structure HasSlots (n : Nat) (gs : List (List Char)) (s : List Char) : Prop where
  length : gs.length = n + 1
  nul : ∀ g ∈ gs, '\x00' ∉ g
  text : weave gs ((List.range n).map placeholder) = s

instance (n : Nat) (gs : List (List Char)) (s : List Char) : Decidable (HasSlots n gs s) :=
  decidable_of_iff (gs.length = n + 1 ∧ (∀ g ∈ gs, '\x00' ∉ g) ∧
      weave gs ((List.range n).map placeholder) = s)
    ⟨fun ⟨h₁, h₂, h₃⟩ => ⟨h₁, h₂, h₃⟩, fun ⟨h₁, h₂, h₃⟩ => ⟨h₁, h₂, h₃⟩⟩

theorem takes_slot (i : Nat) : Takes slot? (placeholder i) i := by
  refine takes_of_eq (fun _ _ => rfl) (by simp [placeholder]) fun v => ?_
  obtain ⟨k₁, k₂, k₃, h₁, h₂, h₃, hdigits, htext⟩ :=
    Markup.exists_placeholder_cut (p := isDigit) (fun _ => isDigit_of_isDigit) (by decide) i v
  have hvalue : Number.decimalValue k₂.text = i := by
    rw [hdigits, Number.decimalValue_of_digits fun c hc =>
      Nat.isDigit_of_mem_toDigits (by decide) (by decide) hc]
    exact Nat.ofDigitChars_ten_toDigits
  refine ⟨(k₁.andThen k₂).andThen k₃, ?_, htext⟩
  simp only [slot?, h₁, h₂, h₃, hvalue, Option.bind_eq_bind, Option.bind_some]
  rfl

/-- The numbers of some segments follow one another. -/
theorem numbers_number (i : Nat) (p : List (Segment Unit)) :
    (number i p).filterMap Segment.value? = List.range' i (saved p).length := by
  induction p generalizing i with
  | nil => rfl
  | cons x p ih =>
    cases x with
    | plain c => exact ih i
    | piece u a => exact congrArg (i :: ·) (ih (i + 1))

/-- A scan for placeholders reads the numbers of some segments. -/
theorem findAll_slot {q : List (Segment Nat)} (hq : '\x00' ∉ source q) :
    findAll slot? (slots q) = q.filterMap Segment.value? := by
  have hplain : ∀ c, Segment.plain c ∈ q → c ≠ '\x00' := by
    rintro c hc rfl
    exact hq (List.mem_flatMap.2 ⟨_, hc, List.mem_singleton_self _⟩)
  have hscan := segments_slots (r := slot?) (f := fun _ i => i) (fun _ _ => rfl)
    (fun s hs => by simp [slot?, hs]) hplain fun _ i _ => takes_slot i
  rw [findAll, hscan, List.filterMap_map]
  refine List.filterMap_congr fun x _ => ?_
  cases x <;> rfl

namespace HasSlots

variable {n : Nat} {gs us : List (List Char)} {s : List Char}

/-- A text with placeholders is a text with elements, with numbers for them. -/
theorem slots_eq (h : HasSlots n gs s) (hn : us.length = n) : slots (number 0 (interlace gs us)) = s := by
  rw [slots_interlace, hn, ← List.range_eq_range', h.text]

theorem saved_eq (h : HasSlots n gs s) (hn : us.length = n) : saved (interlace gs us) = us := by
  apply saved_interlace
  rw [hn, h.length]
  exact Nat.le_succ n

theorem nul_not_mem (h : HasSlots n gs s) (hu : ∀ u ∈ us, '\x00' ∉ u) :
    '\x00' ∉ source (interlace gs us) := by
  rw [source_interlace]
  intro hm
  rcases mem_weave hm with ⟨g, hg, hm⟩ | ⟨u, hmem, hm⟩
  · exact h.nul g hg hm
  · exact hu u hmem hm

theorem findAll_eq (h : HasSlots n gs s) (hn : us.length = n) (hu : ∀ u ∈ us, '\x00' ∉ u) :
    findAll slot? s = List.range n := by
  have hnul : '\x00' ∉ source (number 0 (interlace gs us)) := by
    rw [source_number]
    exact h.nul_not_mem hu
  rw [← h.slots_eq hn, findAll_slot hnul, numbers_number, h.saved_eq hn, hn, List.range_eq_range']

end HasSlots

theorem nul_not_mem_saved {html u : List Char} (hu : u ∈ saved (parts html)) : '\x00' ∉ u := fun hc =>
  nul_not_mem_parts html (mem_source_of_mem_saved hu hc)

/-- The masked document has a placeholder for each element, and no other NUL. -/
theorem hasSlots_masked (html : List Char) :
    HasSlots (saved (parts html)).length (gaps (parts html)) (masked html) where
  length := length_gaps _
  nul _ hg hc := nul_not_mem_parts html (mem_source_of_mem_gaps hg hc)
  text := by
    rw [List.range_eq_range', ← slots_interlace, interlace_gaps, masked, maskFrom_eq]

/-- What a change leaves of the masked document is restored piece by piece, if the change copies the
placeholders and writes no other NUL. -/
theorem HasSlots.around_eq {change : List Char → List Char} {html : List Char} {gs : List (List Char)}
    (h : HasSlots (saved (parts html)).length gs (change (masked html))) :
    around change html = weave gs (saved (parts html)) := by
  have hchange : change (slots (number 0 (parts html))) =
      slots (number 0 (interlace gs (saved (parts html)))) := by
    rw [← maskFrom_eq, h.slots_eq rfl, masked]
  rw [around_of_saved hchange (h.saved_eq rfl) (h.nul_not_mem fun _ => nul_not_mem_saved), source_interlace]

/-- Masking and restoring are inverse around any change that copies the placeholders. The masked document
is the document with a placeholder for each of its elements. From a text with these placeholders, each once
and in their order, and no other NUL, restoring reads their numbers, all of which have elements, and leaves
the text with the elements in their places. So nothing but the NULs is lost where nothing is changed. -/
theorem around_of_slots (html : List Char) :
    HasSlots (saved (parts html)).length (gaps (parts html)) (masked html) ∧
      weave (gaps (parts html)) (saved (parts html)) = dropNul html ∧
      (∀ (change : List Char → List Char) (gs : List (List Char)),
        HasSlots (saved (parts html)).length gs (change (masked html)) →
          findAll slot? (change (masked html)) = List.range (saved (parts html)).length ∧
            around change html = weave gs (saved (parts html))) ∧
      around id html = dropNul html := by
  have hweave : weave (gaps (parts html)) (saved (parts html)) = dropNul html := by
    rw [weave_gaps, source_parts]
  refine ⟨hasSlots_masked html, hweave, ?_, ?_⟩
  · intro change gs h
    exact ⟨h.findAll_eq rfl fun _ => nul_not_mem_saved, h.around_eq⟩
  · calc around id html = weave (gaps (parts html)) (saved (parts html)) :=
          HasSlots.around_eq (hasSlots_masked html)
      _ = dropNul html := hweave

/-- A document that imitates a placeholder, with eleven elements and a comment before the last of them,
which imitates a placeholder and an element. -/
def sampleSlots : List Char :=
  ("<\x000\x00>" ++ String.join (List.replicate 10 "<pre></pre>") ++
    "<!-- c --><textarea><pre><\x001\x00></textarea>").toList

/-- What stands around the elements of the sample without its comment. -/
def sampleGaps : List (List Char) := "<0>".toList :: List.replicate 11 []

/-- In the sample the comment goes, and all elements come back, the one with two digits in its number
too. -/
theorem around_sampleSlots :
    HasSlots 11 sampleGaps (replaceAll Reduce.comment? (masked sampleSlots)) ∧
      findAll slot? (replaceAll Reduce.comment? (masked sampleSlots)) = List.range 11 ∧
      Reduce.stripComments sampleSlots = ("<0>" ++ String.join (List.replicate 10 "<pre></pre>") ++
        "<textarea><pre><1></textarea>").toList := by
  have hsaved : saved (parts sampleSlots) = List.replicate 10 "<pre></pre>".toList ++
      ["<textarea><pre><1></textarea>".toList] := by
    decide +kernel
  have hlength : (saved (parts sampleSlots)).length = 11 := by rw [hsaved]; rfl
  have hslots : HasSlots 11 sampleGaps (replaceAll Reduce.comment? (masked sampleSlots)) := by
    decide +kernel
  obtain ⟨-, -, hchange, -⟩ := around_of_slots sampleSlots
  rw [hlength] at hchange
  obtain ⟨hnumbers, haround⟩ := hchange _ sampleGaps hslots
  refine ⟨hslots, hnumbers, ?_⟩
  rw [Reduce.stripComments, haround, hsaved]
  decide +kernel

end PagePress.Html.Shield
