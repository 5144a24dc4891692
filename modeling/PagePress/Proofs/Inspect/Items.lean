import PagePress.Inspect
import PagePress.Proofs.Shield.Comments

/-!
What is visible of a document, item by item. Comments are taken out before scripts and stylesheets
are emptied, and the first pass does not know of the second: a comment mark in a script opens a
comment that may end anywhere. Where each comment that begins in a script ends there, and none of
them hides an end tag in two halves (`Contained`), the comments of the document go and its scripts
and stylesheets keep their tags (`markupOnly_text`).
-/

namespace PagePress.Inspect

open Text Html

/-- The elements whose content is no markup. -/
def rawNames : List String := ["script", "style"]

/-! ### Comments -/

theorem contextFree_comment : ContextFree anyComment? := fun _ _ => rfl

theorem anyComment?_of_word? {s : List Char} (h : Cut.word? "<!--" s = none) : anyComment? none s = none :=
  Markup.takesComments_inspect.none s h

theorem atMark_comment : AtMark anyComment? := Markup.takesComments_inspect.atMark

/-- A comment by what stands between its marks. -/
def commentText (m : List Char) : List Char := "<!--".toList ++ m ++ "-->".toList

/-- In front of the end of a comment nothing ends it. -/
theorem word?_of_not_infix {m x y v : List Char} {c : Char} (hm : ¬ "-->".toList <:+: m)
    (h : m = x ++ c :: y) : (Cut.word? "-->" (c :: y ++ ("-->".toList ++ v))).isSome = false := by
  by_contra hsome
  obtain ⟨r, hr⟩ := Shield.exists_of_word? (w := "-->") (eq_true_of_ne_false hsome)
  obtain ⟨rfl, h₁⟩ : c = '-' ∧ y ++ '-' :: '-' :: '>' :: v = '-' :: '>' :: r := List.cons.inj hr
  -- The two dashes and the mark lie in `m`, or the mark would be a dash of the end.
  cases y with
  | nil => exact absurd (List.cons.inj (List.cons.inj h₁).2).1 (by decide)
  | cons d y =>
    obtain ⟨rfl, h₂⟩ := List.cons.inj h₁
    cases y with
    | nil => exact absurd (List.cons.inj h₂).1 (by decide)
    | cons e y =>
      obtain ⟨rfl, -⟩ := List.cons.inj h₂
      exact hm ⟨x, y, by rw [h]; simp⟩

theorem isSome_word? {w : String} {s v : List Char} (hs : s = w.toList ++ v) :
    (Cut.word? w s).isSome = true := by
  obtain ⟨k, hk, -⟩ := Cut.word?_gives hs
  rw [hk]
  rfl

/-- A comment is taken up to its first end. -/
theorem exists_anyComment? {m : List Char} (hm : ¬ "-->".toList <:+: m) (v : List Char) :
    ∃ k : Cut (commentText m ++ v), anyComment? none (commentText m ++ v) = some ([], k) ∧
      k.text = commentText m := by
  obtain ⟨k₁, h₁, t₁, r₁⟩ := Cut.word?_gives (s := commentText m ++ v) (w := "<!--")
    (v := m ++ ("-->".toList ++ v)) (by simp only [commentText, List.append_assoc])
  obtain ⟨k₂, h₂, t₂, r₂⟩ := Cut.before?_gives (p := fun t => (Cut.word? "-->" t).isSome) r₁
    (fun _ _ _ h => word?_of_not_infix hm h) (isSome_word? rfl)
  obtain ⟨k₃, h₃, t₃, -⟩ := Cut.word?_gives r₂
  refine ⟨(k₁.andThen k₂).andThen k₃, ?_, ?_⟩
  · simp only [anyComment?, h₁, h₂, h₃, Option.bind_eq_bind, Option.bind_some, Option.pure_def]
  · show k₁.text ++ k₂.text ++ k₃.text = _
    rw [t₁, t₂, t₃, commentText]

theorem takes_comment {m : List Char} (hm : ¬ "-->".toList <:+: m) : Takes anyComment? (commentText m) [] :=
  takes_of_eq contextFree_comment (by simp [commentText]) (exists_anyComment? hm)

/-- What is taken as a comment is one. -/
theorem anyComment?_some {b : Option Char} {s a : List Char} {k : Cut s} (h : anyComment? b s = some (a, k)) :
    a = [] ∧ ∃ m, ¬ "-->".toList <:+: m ∧ k.text = commentText m := by
  simp only [anyComment?, Option.bind_eq_bind, Option.bind_eq_some_iff, Option.pure_def, Option.some.injEq,
    Prod.mk.injEq] at h
  obtain ⟨k₁, h₁, k₂, h₂, k₃, h₃, rfl, rfl⟩ := h
  refine ⟨rfl, k₂.text, ?_, ?_⟩
  · rintro ⟨x, y, hxy⟩
    have hnone := (Cut.before?_some h₂).2 x ("-->".toList ++ y) (by rw [← hxy, List.append_assoc]) (by simp)
    rw [List.append_assoc, isSome_word? rfl] at hnone
    cases hnone
  · show k₁.text ++ k₂.text ++ k₃.text = _
    rw [Cut.text_of_word? h₁, Cut.text_of_word? h₃, commentText]

theorem passes_comment {s : List Char} (h : ∀ v, Cut.word? "<!--" ('<' :: (s ++ v)) = none) (hs : '<' ∉ s) :
    Passes anyComment? ('<' :: s) :=
  passes_tag contextFree_comment atMark_comment (fun v => anyComment?_of_word? (h v)) hs

/-- The mark of a comment is not made up by a text and a tag behind it. -/
theorem word?_of_append {s t : List Char} (h : Cut.word? "<!--" ('<' :: s) = none) :
    Cut.word? "<!--" ('<' :: s ++ '<' :: t) = none := by
  by_contra hne
  obtain ⟨r, hr⟩ := Shield.exists_of_word? (w := "<!--") (Option.isSome_iff_ne_none.2 hne)
  have hr : ['!', '-', '-'] ++ r = s ++ '<' :: t := (List.cons.inj hr).2.symm
  obtain ⟨z, rfl, -⟩ := exists_of_append_eq (by decide) hr
  have := isSome_word? (w := "<!--") (s := '<' :: (['!', '-', '-'] ++ z)) (v := z) rfl
  rw [h] at this
  cases this

/-- A text in which every comment ends is rid of its comments by itself, up to the next tag. -/
theorem replaceAll_comment_append {s t : List Char} (h : ¬ "<!--".toList <:+: replaceAll anyComment? s) :
    replaceAll anyComment? (s ++ '<' :: t) = replaceAll anyComment? s ++ replaceAll anyComment? ('<' :: t) := by
  induction hn : s.length using Nat.strongRecOn generalizing s with
  | _ n ih =>
    subst hn
    cases s with
    | nil => simp
    | cons c s =>
      -- A character that stays leaves the comments of the rest.
      have step (hshort : anyComment? none (c :: s) = none)
          (hlong : anyComment? none (c :: s ++ '<' :: t) = none) :
          replaceAll anyComment? (c :: s ++ '<' :: t) =
            replaceAll anyComment? (c :: s) ++ replaceAll anyComment? ('<' :: t) := by
        rw [replaceAll_of_none contextFree_comment hshort] at h
        rw [List.cons_append] at hlong ⊢
        rw [replaceAll_of_none contextFree_comment hlong, replaceAll_of_none contextFree_comment hshort,
          ih s.length (by simp) (fun hin => h (hin.trans (List.suffix_cons c _).isInfix)) rfl, List.cons_append]
      by_cases hc : c = '<'
      · subst hc
        cases hword : Cut.word? "<!--" ('<' :: s) with
        | none => exact step (anyComment?_of_word? hword) (anyComment?_of_word? (word?_of_append hword))
        | some k =>
          cases hcomment : anyComment? none ('<' :: s) with
          | none =>
            -- A comment that does not end leaves its mark.
            exfalso
            have hs := k.append_eq
            rw [Cut.text_of_word? hword] at hs
            have hpass : Passes anyComment? ['!', '-', '-'] :=
              passes_text contextFree_comment atMark_comment (by decide)
            have hs : s = ['!', '-', '-'] ++ k.rest := (List.cons.inj hs).2.symm
            rw [replaceAll_of_none contextFree_comment hcomment, hs, hpass.replaceAll] at h
            exact h ⟨[], replaceAll anyComment? k.rest, rfl⟩
          | some x =>
            obtain ⟨a, k⟩ := x
            obtain ⟨rfl, m, hm, htext⟩ := anyComment?_some hcomment
            have hcut : '<' :: s = commentText m ++ k.rest := by rw [← htext, k.append_eq]
            rw [hcut, (takes_comment hm).replaceAll] at h ⊢
            have hlength : s.length + 1 = (commentText m).length + k.rest.length := by
              simpa using congrArg List.length hcut
            have hpos : 0 < (commentText m).length := by simp [commentText]
            rw [List.append_assoc, (takes_comment hm).replaceAll,
              ih k.rest.length (by rw [List.length_cons]; omega) (by simpa using h) rfl]
            rfl
      · exact step (atMark_comment c s hc) (atMark_comment c _ hc)

/-! ### Scripts and stylesheets -/

theorem mem_names_of_raw {name : String} (h : name ∈ rawNames) : name ∈ Shield.names := by
  have : ∀ n ∈ rawNames, n ∈ Shield.names := by decide
  exact this name h

theorem opensWith_raw : Markup.OpensWith rawNames rawElement? where
  contextFree _ _ := rfl
  names := by decide
  none s h := by
    have hnone : rawNames.findSome? (fun name => elementRepeating? name s) = none := by
      rw [List.findSome?_eq_none_iff]
      intro name hname
      simp [elementRepeating?, h name hname]
    show (rawNames.findSome? fun name => elementRepeating? name s).map _ = none
    rw [hnone]
    rfl

/-- A script or stylesheet is emptied wherever it stands. -/
theorem takes_raw {name : String} (hname : name ∈ rawNames) {e : RawElement}
    (h : e.Spells sameCaseless name e.word) : Takes rawElement? e.text (e.opening ++ e.closing) := by
  refine takes_of_eq (fun _ _ => rfl) (by simp [RawElement.text, RawElement.opening, openingTag]) fun v => ?_
  have hmem := mem_names_of_raw hname
  obtain ⟨x, hx, hparts⟩ := exists_elementRepeating? (Shield.isTagName_of_mem hmem) h (v := v) rfl
  refine ⟨x.cut, ?_, hparts.cut_text⟩
  have hunique : ∀ m ∈ rawNames, elementRepeating? m (e.text ++ v) ≠ none → m = name := by
    intro m hm hne
    obtain ⟨x', hx'⟩ := Option.ne_none_iff_exists'.1 hne
    obtain ⟨e', he', hparts'⟩ := elementRepeating?_some hx'
    have hcut := x'.cut.append_eq
    rw [hparts'.cut_text] at hcut
    refine Shield.name_unique hmem (mem_names_of_raw hm) h.opens he'.opens
      (x := e.attrs ++ '>' :: (e.body ++ e.closing ++ v))
      (y := e'.attrs ++ '>' :: (e'.body ++ e'.closing ++ x'.cut.rest)) ?_
    simpa [RawElement.text, RawElement.opening, openingTag] using (congrArg List.tail hcut).symm
  show (rawNames.findSome? fun m => elementRepeating? m (e.text ++ v)).map _ = _
  rw [Shield.findSome?_eq_of_unique hname hunique, hx, Option.map_some, hparts.opening, hparts.closing]

/-! ### Items -/

/-- A mark with what follows it begins neither a comment nor a script or stylesheet. -/
def BeginsNone (s : List Char) : Prop :=
  ∀ v, Cut.word? "<!--" ('<' :: (s ++ v)) = none ∧ ∀ name ∈ rawNames, tagStart? name ('<' :: (s ++ v)) = none

/-- A script or stylesheet without the comments in its content. -/
def withoutComments (e : RawElement) : RawElement := { e with body := replaceAll anyComment? e.body }

/-- Every comment that begins in a script or stylesheet ends in it, and what is left of the content
holds no end tag. -/
structure Contained (e : RawElement) : Prop where
  attrs : '<' ∉ e.attrs
  comments : ¬ "<!--".toList <:+: replaceAll anyComment? e.body
  spells : ∃ name ∈ rawNames, (withoutComments e).Spells sameCaseless name e.word

/-- A part of a document: text, a mark with what stands behind it up to the next one, a comment by its
body, or a script or stylesheet. -/
inductive Item where
  | text (s : List Char)
  | mark (s : List Char)
  | comment (body : List Char)
  | raw (e : RawElement)

namespace Item

/-- The characters of an item. -/
def chars : Item → List Char
  | text s => s
  | mark s => '<' :: s
  | comment m => commentText m
  | raw e => e.text

/-- What is visible of an item. -/
def visible : Item → List Char
  | text s => s
  | mark s => '<' :: s
  | comment _ => []
  | raw e => e.opening ++ e.closing

def WellFormed : Item → Prop
  | text s => '<' ∉ s
  | mark s => '<' ∉ s ∧ BeginsNone s
  | comment m => ¬ "-->".toList <:+: m
  | raw e => Contained e

/-- What the first pass leaves of an item. -/
def uncommented : Item → List Char
  | raw e => (withoutComments e).text
  | x => x.visible

end Item

theorem word?_of_ne {s : List Char} (h : ∀ t, s ≠ '!' :: t) : Cut.word? "<!--" ('<' :: s) = none := by
  by_contra hne
  obtain ⟨r, hr⟩ := Shield.exists_of_word? (w := "<!--") (Option.isSome_iff_ne_none.2 hne)
  exact h _ (List.cons.inj hr).2

namespace Contained

variable {e : RawElement} (h : Contained e)
include h

/-- The two tags of a script or stylesheet bear letters as their names. -/
theorem nameLetter : (∀ c ∈ e.word, NameLetter c) ∧ ∀ c ∈ e.closingWord, NameLetter c := by
  obtain ⟨name, hname, he⟩ := h.spells
  have hword := nameLetter_of_forall₂ (Shield.isTagName_of_mem (mem_names_of_raw hname)) he.opens
  exact ⟨hword, nameLetter_of_sameCaseless hword he.closes⟩

theorem exists_cons : ∃ c w, e.word = c :: w := by
  obtain ⟨name, hname, he⟩ := h.spells
  have hne : ∀ n ∈ rawNames, n.toList ≠ [] := by decide
  refine List.exists_cons_of_ne_nil fun hnil => hne name hname ?_
  have hopens : List.Forall₂ (fun a c => sameLetter a c = true) name.toList e.word := he.opens
  rw [hnil] at hopens
  exact List.forall₂_nil_right_iff.1 hopens

/-- The opening tag begins no comment. -/
theorem passes_opening : Passes anyComment? e.opening := by
  obtain ⟨c, w, hw⟩ := h.exists_cons
  have hletter := h.nameLetter.1
  refine passes_comment (s := e.word ++ (e.attrs ++ ['>'])) (fun v => word?_of_ne fun t ht => ?_) ?_
  · rw [hw, List.cons_append, List.cons_append] at ht
    have hword := (hletter c (by simp [hw])).isWord
    rw [(List.cons.inj ht).1] at hword
    exact absurd hword (by decide)
  · have hmark : '<' ∉ e.word := fun hm => (hletter _ hm).ne (by decide) rfl
    simp [hmark, h.attrs]

/-- The closing tag begins no comment. -/
theorem passes_closing : Passes anyComment? e.closing := by
  obtain ⟨name, -, he⟩ := h.spells
  have hspace : ∀ c ∈ e.space, isBlank c = true := he.space
  refine passes_comment (s := '/' :: (e.closingWord ++ (e.space ++ ['>']))) (fun v => word?_of_ne ?_) ?_
  · rintro t ht
    exact absurd (List.cons.inj ht).1 (by decide)
  · have hword : '<' ∉ e.closingWord := fun hm => (h.nameLetter.2 _ hm).ne (by decide) rfl
    have hblank : '<' ∉ e.space := fun hm => absurd (hspace _ hm) (by decide)
    simp [hword, hblank]

end Contained

/-- The comments of a document go, those in its scripts and stylesheets included. -/
theorem replaceAll_comment_text {d : List Item} (hd : ∀ x ∈ d, x.WellFormed) :
    replaceAll anyComment? (d.flatMap Item.chars) = d.flatMap Item.uncommented := by
  induction d with
  | nil => simp
  | cons x d ih =>
    have hx := hd x (by simp)
    have ih := ih fun y hy => hd y (List.mem_cons_of_mem _ hy)
    rw [List.flatMap_cons, List.flatMap_cons]
    cases x with
    | text s => exact ((passes_text contextFree_comment atMark_comment hx).replaceAll _).trans (by rw [ih]; rfl)
    | mark s => exact ((passes_comment (fun v => (hx.2 v).1) hx.1).replaceAll _).trans (by rw [ih]; rfl)
    | comment m => exact ((takes_comment hx).replaceAll _).trans (by rw [ih]; rfl)
    | raw e =>
      have hx : Contained e := hx
      have hbody : replaceAll anyComment? (e.body ++ (e.closing ++ d.flatMap Item.chars)) =
          replaceAll anyComment? e.body ++ (e.closing ++ d.flatMap Item.uncommented) := by
        have happend := replaceAll_comment_append hx.comments
          (t := '/' :: (e.closingWord ++ (e.space ++ ['>'])) ++ d.flatMap Item.chars)
        rw [← List.cons_append] at happend
        rw [← ih, ← hx.passes_closing.replaceAll]
        exact happend
      show replaceAll anyComment? (e.opening ++ e.body ++ e.closing ++ d.flatMap Item.chars) =
        e.opening ++ replaceAll anyComment? e.body ++ e.closing ++ d.flatMap Item.uncommented
      simp only [List.append_assoc]
      rw [hx.passes_opening.replaceAll, hbody]

theorem passes_raw {s : List Char} (hs : '<' ∉ s) (h : BeginsNone s) : Passes rawElement? ('<' :: s) := by
  refine passes_tag opensWith_raw.contextFree opensWith_raw.atMark (fun v => ?_) hs
  refine opensWith_raw.none _ fun m hm => ?_
  rw [openTag?, (h v).2 m hm]
  rfl

/-- The scripts and stylesheets of a document are emptied. -/
theorem replaceAll_raw_text {d : List Item} (hd : ∀ x ∈ d, x.WellFormed) :
    replaceAll rawElement? (d.flatMap Item.uncommented) = d.flatMap Item.visible := by
  induction d with
  | nil => simp
  | cons x d ih =>
    have hx := hd x (by simp)
    have ih := ih fun y hy => hd y (List.mem_cons_of_mem _ hy)
    rw [List.flatMap_cons, List.flatMap_cons]
    cases x with
    | text s =>
      exact ((passes_text opensWith_raw.contextFree opensWith_raw.atMark hx).replaceAll _).trans (by rw [ih]; rfl)
    | mark s => exact ((passes_raw hx.1 hx.2).replaceAll _).trans (by rw [ih]; rfl)
    | comment m => exact ih
    | raw e =>
      have hx : Contained e := hx
      obtain ⟨name, hname, he⟩ := hx.spells
      exact ((takes_raw hname he).replaceAll _).trans (by rw [ih]; rfl)

/-- What is visible of a document: its comments go, its scripts and stylesheets are emptied, and all
else stays. -/
theorem markupOnly_chars {d : List Item} (hd : ∀ x ∈ d, x.WellFormed) :
    markupOnly (d.flatMap Item.chars) = d.flatMap Item.visible := by
  rw [markupOnly, replaceAll_comment_text hd, replaceAll_raw_text hd]

/-! ### Findings by subject -/

/-- What a finding is about. -/
inductive Subject where
  | parts
  | balance
  | size
  | images
  | inputs
  | addresses
  deriving DecidableEq

def subject : Finding → Subject
  | .missingDoctype | .missingElement _ | .missingViewport => .parts
  | .unclosed .. | .extraClosing .. => .balance
  | .oversized _ => .size
  | .imageWithoutAlt _ => .images
  | .inputWithoutLabel _ => .inputs
  | .scriptAddress | .documentAddress => .addresses

/-- The findings of the inspection about a subject, each of them found in its own way. -/
def findings (html : List Char) : Subject → List Finding
  | .parts => missing html
  | .balance => unbalanced (markupOnly html)
  | .size => oversize html
  | .images => undescribed (markupOnly html)
  | .inputs => unlabelled (markupOnly html)
  | .addresses => refusedAddresses html

theorem subject_of_mem (html : List Char) (s : Subject) : ∀ f ∈ findings html s, subject f = s := by
  intro f hf
  cases s with
  | parts =>
    have hrequired : ∀ x ∈ required, subject x.2 = .parts := by decide
    rcases List.mem_append.1 hf with hf | hf
    · obtain ⟨⟨needle, finding⟩, hx, hf⟩ := List.mem_filterMap.1 hf
      obtain rfl := Option.some.inj (Option.ite_none_left_eq_some.1 hf).2
      exact hrequired _ hx
    · split at hf
      · cases hf
      · rw [List.mem_singleton.1 hf]
        rfl
  | balance =>
    obtain ⟨name, -, hf⟩ := List.mem_filterMap.1 hf
    simp only [balanceOf] at hf
    split at hf
    · exact Option.some.inj hf ▸ rfl
    · exact Option.some.inj (Option.ite_none_right_eq_some.1 hf).2 ▸ rfl
  | size =>
    simp only [findings, oversize] at hf
    split at hf
    · rw [List.mem_singleton.1 hf]
      rfl
    · cases hf
  | images =>
    obtain ⟨⟨tag, i⟩, -, hf⟩ := List.mem_filterMap.1 hf
    exact Option.some.inj (Option.ite_none_left_eq_some.1 hf).2 ▸ rfl
  | inputs =>
    obtain ⟨⟨tag, i⟩, -, hf⟩ := List.mem_filterMap.1 hf
    exact Option.some.inj (Option.ite_none_right_eq_some.1 hf).2 ▸ rfl
  | addresses =>
    rcases List.mem_append.1 hf with hf | hf
    · split at hf
      · rw [List.mem_singleton.1 hf]
        rfl
      · cases hf
    · split at hf
      · rw [List.mem_singleton.1 hf]
        rfl
      · cases hf

/-- What the inspection finds about a subject. -/
theorem filter_subject (html : List Char) (s : Subject) :
    (inspect html).filter (fun f => subject f = s) = findings html s := by
  have hfilter : ∀ t, (findings html t).filter (fun f => subject f = s) =
      if t = s then findings html t else [] := by
    intro t
    split
    · rename_i hts
      exact List.filter_eq_self.2 fun f hf => by simp [subject_of_mem html t f hf, hts]
    · rename_i hts
      exact List.filter_eq_nil_iff.2 fun f hf => by simp [subject_of_mem html t f hf, hts]
  have hall : inspect html = findings html .parts ++ findings html .balance ++ findings html .size ++
      findings html .images ++ findings html .inputs ++ findings html .addresses := rfl
  rw [hall]
  simp only [List.filter_append, hfilter]
  cases s <;> simp

end PagePress.Inspect
