import PagePress.Proofs.Embed
import PagePress.Proofs.Script.Literal
import PagePress.Proofs.Script.Words

/-!
Scripts that are safe in their element. No mark that could end the element or change how a document
reads it is left in a safe script, or comes up when the script is compacted; string literals in it
mean what they meant (`script_of_text`).
-/

namespace PagePress.Embed

open Text Script

/-- A text holds a mark that a script must not spell: the end tag of its element, in any case, or a mark
of a comment. -/
def Breaks (s : List Char) : Prop :=
  (∃ w, '<' :: '/' :: w <:+: s ∧ List.Forall₂ (fun a c => sameLetter a c = true) "script".toList w) ∨
    "<!--".toList <:+: s ∨ "-->".toList <:+: s

theorem guards_scriptTag : Guards '<' (endTag "script") := guards_endTag (by decide)

theorem guards_commentStart : Guards '<' (fixedWord "<!--" "<\\!--") :=
  guards_fixedWord (u := []) (d := '<') (c := '!') (w := ['-', '-']) (by decide) (by decide) rfl rfl
    (by simp) rfl (by decide) (by decide)

theorem guards_commentEnd : Guards '-' (fixedWord "-->" "--\\>") :=
  guards_fixedWord (u := ['-']) (d := '-') (c := '>') (w := []) (by decide) (by decide) rfl rfl
    (by decide) rfl (by decide) (by decide)

/-- Nothing is left to be made safe in a text. -/
structure Safe (s : List Char) : Prop where
  tag : ∀ x, x <:+ s → endTag "script" none x = none
  commentStart : ∀ x, x <:+ s → fixedWord "<!--" "<\\!--" none x = none
  commentEnd : ∀ x, x <:+ s → fixedWord "-->" "--\\>" none x = none

theorem safe_script (s : List Char) : Safe (script s) where
  tag _ hx :=
    guards_scriptTag.eq_none_of_suffix (guards_commentEnd.guarded _ false)
      (fun _ => guards_scriptTag.eq_none_of_suffix (guards_commentStart.guarded _ false)
        fun _ => guards_scriptTag.eq_none s) hx
  commentStart _ hx :=
    guards_commentStart.eq_none_of_suffix (guards_commentEnd.guarded _ false)
      (fun _ => guards_commentStart.eq_none _) hx
  commentEnd _ hx := guards_commentEnd.eq_none _ hx

theorem Safe.script_eq_self {s : List Char} (h : Safe s) : script s = s := by
  rw [script, replaceAll_eq_self guards_scriptTag.contextFree h.tag,
    replaceAll_eq_self guards_commentStart.contextFree h.commentStart,
    replaceAll_eq_self guards_commentEnd.contextFree h.commentEnd]

theorem fixedWord_ne_none (w v : String) (t : List Char) : fixedWord w v none (w.toList ++ t) ≠ none := by
  obtain ⟨k, hk, -⟩ := Cut.word?_gives (w := w) (v := t) rfl
  simp [fixedWord, hk]

theorem Safe.not_breaks {s : List Char} (h : Safe s) : ¬ Breaks s := by
  rintro (⟨w, ⟨y, z, hs⟩, hw⟩ | ⟨y, z, hs⟩ | ⟨y, z, hs⟩)
  · have hsome := isSome_endTag (isSome_wordBy?_of_same hw z)
    rw [h.tag _ ⟨y, by rw [← hs]; simp⟩] at hsome
    cases hsome
  · exact fixedWord_ne_none _ _ z (h.commentStart _ ⟨y, by rw [← hs, List.append_assoc]⟩)
  · exact fixedWord_ne_none _ _ z (h.commentEnd _ ⟨y, by rw [← hs, List.append_assoc]⟩)

/-- The letters of an element's name are firm in any case. -/
theorem isFirm_of_sameLetter {a c : Char} (ha : a ∈ "script".toList) (h : sameLetter a c = true) :
    isFirm c = true := by
  have hloose : ∀ c ∈ looseChars, ∀ a ∈ "script".toList, sameLetter a c = false := by decide
  by_contra hc
  have hmem : c ∈ looseChars := by simpa [isFirm] using hc
  rw [hloose c hmem a ha] at h
  cases h

/-- Compacting a script joins no marks. -/
theorem breaks_of_compact {s : List Char} (h : Breaks (compact s)) : Breaks s := by
  rcases h with ⟨w, hi, hw⟩ | hi | hi
  · refine .inl ⟨w, Firm.infix_of_compact (fun c hc => ?_) hi, hw⟩
    rcases List.mem_cons.1 hc with rfl | hc
    · decide
    · rcases List.mem_cons.1 hc with rfl | hc
      · decide
      · obtain ⟨a, ha, hac⟩ := exists_same hw hc
        exact isFirm_of_sameLetter ha hac
  · exact .inr (.inl (Firm.infix_of_compact (by unfold Firm; decide) hi))
  · exact .inr (.inr (Firm.infix_of_compact (by unfold Firm; decide) hi))

/-- A safe script spells neither the end tag of its element nor a mark of a comment, and neither does
its compact form. Making it safe once more changes nothing, and what stands between the marks of a
string literal has the value it had. -/
theorem script_of_text (s : List Char) :
    ¬ Breaks (script s) ∧ ¬ Breaks (compact (script s)) ∧ script (script s) = script s ∧
      ∀ mark ∈ ['\'', '"'], literalValue? mark (script s) = literalValue? mark s := by
  have hsafe := safe_script s
  refine ⟨hsafe.not_breaks, fun h => hsafe.not_breaks (breaks_of_compact h), hsafe.script_eq_self,
    fun mark hmark => ?_⟩
  have hguarded : isGuarded mark = false := by
    simp only [List.mem_cons, List.not_mem_nil, or_false] at hmark
    rcases hmark with rfl | rfl <;> decide
  have hvalue : ∀ s t, Guarded false s t → literalValue? mark t = literalValue? mark s := fun s t h =>
    Reading.value?_of_guarded hguarded h (by simp)
  rw [script, hvalue _ _ (guards_commentEnd.guarded _ false),
    hvalue _ _ (guards_commentStart.guarded _ false), hvalue _ _ (guards_scriptTag.guarded s false)]

end PagePress.Embed
