import Mathlib.Data.List.Forall2
import Mathlib.Data.List.Infix
import PagePress.Embed
import PagePress.Proofs.Embed.Guarded

/-!
Texts that are embedded in an element. Making a text safe for its element leaves no end tag of the
element in it (`not_spellsEndTag_replaceAll`), and changes nothing where there are no marks of a
tag.
-/

namespace PagePress

open Text

namespace Embed

/-- Where characters agree with those of a word, each agrees with one of it. -/
theorem exists_same {same : Char → Char → Bool} {w u : List Char}
    (h : List.Forall₂ (fun a c => same a c = true) w u) {c : Char} (hc : c ∈ u) :
    ∃ a ∈ w, same a c = true := by
  induction h with
  | nil => cases hc
  | @cons a d w u hac _ ih =>
    rcases List.mem_cons.1 hc with rfl | hc
    · exact ⟨a, by simp, hac⟩
    · obtain ⟨a, ha, hac⟩ := ih hc
      exact ⟨a, by simp [ha], hac⟩

/-- Characters that agree with those of a word are taken for it, whatever follows. -/
theorem isSome_wordBy?_of_same {same : Char → Char → Bool} {w u : List Char}
    (h : List.Forall₂ (fun a c => same a c = true) w u) (v : List Char) :
    (Cut.wordBy? same w (u ++ v)).isSome = true := by
  induction h with
  | nil => rfl
  | cons hac _ ih => simpa [Cut.wordBy?, hac] using ih

theorem word?_of_not_mem {w : String} {m : Char} (hw : m ∈ w.toList) {s : List Char} (hs : m ∉ s) :
    Cut.word? w s = none := by
  cases h : Cut.word? w s with
  | none => rfl
  | some k => exact absurd (k.mem_of_mem_text (Cut.text_of_word? h ▸ hw)) hs

/-- A text without `<` has no end tag in it. -/
theorem replaceAll_endTag {name : String} {s : List Char} (hs : '<' ∉ s) :
    replaceAll (endTag name) s = s := by
  refine replaceAll_eq_self (fun _ _ => rfl) fun u hu => ?_
  have : Cut.word? "</" u = none := word?_of_not_mem (m := '<') (by decide) fun hm => hs (hu.mem hm)
  simp [endTag, this]

theorem replaceAll_fixedWord {w v : String} {m : Char} (hw : m ∈ w.toList) {s : List Char} (hs : m ∉ s) :
    replaceAll (fixedWord w v) s = s := by
  refine replaceAll_eq_self (fun _ _ => rfl) fun u hu => ?_
  have : Cut.word? w u = none := word?_of_not_mem hw fun hm => hs (hu.mem hm)
  simp [fixedWord, this]

theorem style_eq_self {s : List Char} (hs : '<' ∉ s) : style s = s := replaceAll_endTag hs

theorem script_eq_self {s : List Char} (h1 : '<' ∉ s) (h2 : '>' ∉ s) : script s = s := by
  rw [script, replaceAll_endTag h1, replaceAll_fixedWord (m := '<') (by decide) h1,
    replaceAll_fixedWord (m := '>') (by decide) h2]

/-! ### End tags -/

/-- The end tag of an element, in any case, is spelt somewhere in a text. -/
def SpellsEndTag (name : String) (s : List Char) : Prop :=
  ∃ u, u <:+ s ∧ (endTag name none u).isSome = true

theorem not_spellsEndTag_of_not_mem {name : String} {s : List Char} (hs : '<' ∉ s) :
    ¬ SpellsEndTag name s := by
  rintro ⟨u, hu, h⟩
  have hword : Cut.word? "</" u = none := word?_of_not_mem (m := '<') (by decide) fun hm => hs (hu.mem hm)
  simp [endTag, hword] at h

/-- The start tag of an element, in any case, is spelt somewhere in a text. -/
def SpellsStartTag (name : String) (s : List Char) : Prop :=
  ∃ u, '<' :: u <:+ s ∧ (Cut.wordAnyCase? name u).isSome = true

instance (name : String) (s : List Char) : Decidable (SpellsStartTag name s) :=
  decidable_of_iff
    (∃ t ∈ s.tails, t.head? = some '<' ∧ (Cut.wordAnyCase? name t.tail).isSome = true) <| by
    constructor
    · rintro ⟨t, ht, hhead, hword⟩
      obtain ⟨u, rfl⟩ := List.head?_eq_some_iff.1 hhead
      exact ⟨u, (List.mem_tails _ _).1 ht, hword⟩
    · rintro ⟨u, hu, hword⟩
      exact ⟨'<' :: u, (List.mem_tails _ _).2 hu, rfl, hword⟩

/-- What an end tag is made of, and what is put in its place. -/
theorem eq_of_endTag {name : String} {s v : List Char} {k : Cut s}
    (h : endTag name none s = some (v, k)) :
    ∃ w, k.text = '<' :: '/' :: w ∧ v = '<' :: '\\' :: '/' :: w ∧
      List.Forall₂ (fun a c => sameLetter a c = true) name.toList w := by
  simp only [endTag, Option.bind_eq_bind, Option.bind_eq_some_iff, Option.pure_def,
    Option.some.injEq, Prod.mk.injEq] at h
  obtain ⟨opening, hopening, tag, htag, rfl, rfl⟩ := h
  exact ⟨tag.text, congrArg (· ++ tag.text) (Cut.text_of_word? hopening), rfl, Cut.same_of_wordBy? htag⟩

theorem isSome_endTag {name : String} {t : List Char} (h : (Cut.wordAnyCase? name t).isSome = true) :
    (endTag name none ('<' :: '/' :: t)).isSome = true := by
  obtain ⟨tag, htag⟩ := Option.isSome_iff_exists.1 h
  have hword : Cut.word? "</" ('<' :: '/' :: t) = some ⟨['<', '/'], t, rfl⟩ := rfl
  simp [endTag, hword, htag]

theorem exists_of_isSome_endTag {name : String} {s : List Char} (h : (endTag name none s).isSome = true) :
    ∃ t, s = '<' :: '/' :: t ∧ (Cut.wordAnyCase? name t).isSome = true := by
  obtain ⟨⟨v, k⟩, hk⟩ := Option.isSome_iff_exists.1 h
  obtain ⟨w, htext, -, hsame⟩ := eq_of_endTag hk
  refine ⟨w ++ k.rest, ?_, isSome_wordBy?_of_same hsame k.rest⟩
  calc s = k.text ++ k.rest := k.append_eq.symm
    _ = '<' :: '/' :: (w ++ k.rest) := by rw [htext]; rfl

/-- An end tag is spelt where its characters stand. -/
theorem spellsEndTag_iff {name : String} {s : List Char} : SpellsEndTag name s ↔
    ∃ w, '<' :: '/' :: w <:+: s ∧ List.Forall₂ (fun a c => sameLetter a c = true) name.toList w := by
  constructor
  · rintro ⟨u, hu, h⟩
    obtain ⟨⟨v, k⟩, hk⟩ := Option.isSome_iff_exists.1 h
    obtain ⟨w, htext, -, hsame⟩ := eq_of_endTag hk
    have hprefix : '<' :: '/' :: w <+: u := ⟨k.rest, by rw [← htext, k.append_eq]⟩
    exact ⟨w, hprefix.isInfix.trans hu.isInfix, hsame⟩
  · rintro ⟨w, ⟨x, y, rfl⟩, hsame⟩
    exact ⟨'<' :: '/' :: (w ++ y), ⟨x, by simp⟩, isSome_endTag (isSome_wordBy?_of_same hsame y)⟩

theorem spellsStartTag_of_infix {name : String} {s w : List Char} (hi : '<' :: w <:+: s)
    (hw : List.Forall₂ (fun a c => sameLetter a c = true) name.toList w) : SpellsStartTag name s := by
  obtain ⟨x, y, rfl⟩ := hi
  exact ⟨w ++ y, ⟨x, by simp⟩, isSome_wordBy?_of_same hw y⟩

/-- A word is found in front of characters that do not belong to it, or not at all. -/
theorem isSome_wordBy?_of_append {same : Char → Char → Bool} {w s v : List Char}
    (hv : ∀ c ∈ v, ∀ a ∈ w, same a c = false) (h : (Cut.wordBy? same w (s ++ v)).isSome = true) :
    (Cut.wordBy? same w s).isSome = true := by
  induction w generalizing s with
  | nil => rfl
  | cons a w ih =>
    cases s with
    | nil =>
      cases v with
      | nil => exact h
      | cons c v => simp [Cut.wordBy?, hv c (by simp) a (by simp)] at h
    | cons c s =>
      by_cases hac : same a c = true
      · have hrest : (Cut.wordBy? same w (s ++ v)).isSome = true := by
          simpa [Cut.wordBy?, hac] using h
        simpa [Cut.wordBy?, hac] using ih (fun c hc b hb => hv c hc b (by simp [hb])) hrest
      · simp [Cut.wordBy?, hac] at h

/-- An end tag is spelt in front of characters that do not belong to it, or not at all. -/
theorem spellsEndTag_of_append {name : String} {s v : List Char}
    (hv : ∀ c ∈ v, c ≠ '<' ∧ c ≠ '/' ∧ ∀ a ∈ name.toList, sameLetter a c = false)
    (h : SpellsEndTag name (s ++ v)) : SpellsEndTag name s := by
  obtain ⟨_, ⟨y, hy⟩, hend⟩ := h
  obtain ⟨t, rfl, ht⟩ := exists_of_isSome_endTag hend
  rcases List.append_eq_append_iff.1 hy with ⟨z, rfl, hz⟩ | ⟨z, rfl, rfl⟩
  · match z, hz with
    | [], hz =>
      have hmem : '<' ∈ v := by
        rw [show v = '<' :: '/' :: t from hz.symm]
        simp
      exact absurd rfl (hv '<' hmem).1
    | [_], hz =>
      have hmem : '/' ∈ v := by
        rw [show v = '/' :: t from (List.cons.inj hz).2.symm]
        simp
      exact absurd rfl (hv '/' hmem).2.1
    | _ :: _ :: z, hz =>
      obtain ⟨rfl, hrest⟩ := List.cons.inj hz
      obtain ⟨rfl, rfl⟩ := List.cons.inj hrest
      refine ⟨'<' :: '/' :: z, List.suffix_append y _, isSome_endTag ?_⟩
      exact isSome_wordBy?_of_append (fun c hc => (hv c hc).2.2) ht
  · exact absurd rfl (hv '<' (by simp)).1

/-- A backslash breaks each end tag of an element whose name has neither `<` nor a backslash. -/
theorem guards_endTag {name : String}
    (hname : ∀ a ∈ name.toList, sameLetter a '<' = false ∧ sameLetter a '\\' = false) :
    Guards '<' (endTag name) where
  contextFree _ _ := rfl
  parts h := by
    obtain ⟨w, htext, hv, hsame⟩ := eq_of_endTag h
    refine ⟨[], '<', '/', w, htext, hv, rfl, rfl, by simp, fun hm => ?_⟩
    obtain ⟨a, ha, hac⟩ := exists_same hsame ((List.mem_cons.1 hm).resolve_left (by decide))
    rw [(hname a ha).1] at hac
    cases hac
  text h := by
    obtain ⟨w, htext, -, hsame⟩ := eq_of_endTag h
    refine ⟨by rw [htext]; rfl, fun hm => ?_⟩
    rw [htext, List.mem_cons, List.mem_cons] at hm
    obtain ⟨a, ha, hac⟩ := exists_same hsame ((hm.resolve_left (by decide)).resolve_left (by decide))
    rw [(hname a ha).2] at hac
    cases hac
  again h t ht := by
    obtain ⟨w, htext, -, hsame⟩ := eq_of_endTag h
    obtain ⟨v, rfl⟩ := ht
    rw [htext]
    exact Option.isSome_iff_ne_none.1 (isSome_endTag (isSome_wordBy?_of_same hsame v))

/-- A backslash breaks each occurrence of a word. -/
theorem guards_fixedWord {word replacement : String} {m d c : Char} {u w : List Char}
    (hword : word.toList = u ++ d :: c :: w) (hreplacement : replacement.toList = u ++ d :: '\\' :: c :: w)
    (hd : opens d = true) (hc : isGuarded c = true) (hu : ∀ e ∈ u, isGuarded e = false)
    (hhead : word.toList.head? = some m) (hm : m ∉ c :: w) (hslash : '\\' ∉ word.toList) :
    Guards m (fixedWord word replacement) where
  contextFree _ _ := rfl
  parts h := by
    obtain ⟨k, hk, ⟨⟩⟩ := Option.map_eq_some_iff.1 h
    exact ⟨u, d, c, w, (Cut.text_of_word? hk).trans hword, hreplacement, hd, hc, hu, hm⟩
  text h := by
    obtain ⟨k, hk, ⟨⟩⟩ := Option.map_eq_some_iff.1 h
    rw [Cut.text_of_word? hk]
    exact ⟨hhead, hslash⟩
  again h t ht := by
    obtain ⟨k, hk, ⟨⟩⟩ := Option.map_eq_some_iff.1 h
    obtain ⟨v, rfl⟩ := ht
    obtain ⟨k', hk', -⟩ := Cut.word?_gives (congrArg (· ++ v) (Cut.text_of_word? hk))
    simp [fixedWord, hk']

/-- Where the end tags of an element have been replaced, none is spelt any more. -/
theorem not_spellsEndTag_replaceAll {name : String}
    (hname : ∀ a ∈ name.toList, sameLetter a '<' = false ∧ sameLetter a '\\' = false) (s : List Char) :
    ¬ SpellsEndTag name (replaceAll (endTag name) s) := by
  rintro ⟨u, hu, h⟩
  rw [(guards_endTag hname).eq_none s hu] at h
  cases h

/-- A stylesheet that is safe for a style element does not spell its end tag. -/
theorem not_spellsEndTag_style (s : List Char) : ¬ SpellsEndTag "style" (style s) :=
  not_spellsEndTag_replaceAll (by decide) s

end Embed

end PagePress
