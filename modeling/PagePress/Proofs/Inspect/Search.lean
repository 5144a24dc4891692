import PagePress.Proofs.Inspect.Attributes
import PagePress.Proofs.Reduce.StartTags

/-!
Attributes that are searched for in the text of a tag. The search does not read the tag: it goes
through the text for something that looks like the attribute, and may find it in a value or at the end
of a longer name. Where no attribute of the tag merely mentions what is looked for (`Tells`), the
search finds what a reader of the tag finds: whether an attribute is there, the value that is given
first, and the last target of a label.
-/

namespace PagePress.Inspect

open Text Html
open Markup (Attr SpelledAttr Spelling StartTag isAttrChar isGapChar)

/-! ### Searching -/

section

variable {p : Option Char → List Char → Bool} {b : Option Char} {u u' v w : List Char}

/-- At no place of `u`, with `v` behind it, is anything found. -/
def Silent (p : Option Char → List Char → Bool) : Option Char → List Char → List Char → Prop
  | _, [], _ => True
  | b, c :: u, v => p b (c :: (u ++ v)) = false ∧ Silent p (some c) u v

theorem getLast?_or_cons (c : Char) (u : List Char) (b : Option Char) :
    (c :: u).getLast?.or b = u.getLast?.or (some c) := by
  cases u with
  | nil => rfl
  | cons d u => simp [List.getLast?_cons]

theorem Silent.occurs_append (h : Silent p b u v) :
    occurs p b (u ++ v) = occurs p (u.getLast?.or b) v := by
  induction u generalizing b with
  | nil => rfl
  | cons c u ih => rw [List.cons_append, occurs, h.1, Bool.false_or, ih h.2, getLast?_or_cons]

theorem Silent.firstMatch?_append {α : Type} {f : Option Char → List Char → Option α}
    (hf : ∀ b s, p b s = false → f b s = none) (h : Silent p b u v) :
    firstMatch? f b (u ++ v) = firstMatch? f (u.getLast?.or b) v := by
  induction u generalizing b with
  | nil => rfl
  | cons c u ih =>
    rw [List.cons_append, firstMatch?, hf _ _ h.1, Option.orElse_none, ih h.2, getLast?_or_cons]

theorem silent_of_forall (h : ∀ b c x, c :: x <:+ u → p b (c :: (x ++ v)) = false) : Silent p b u v := by
  induction u generalizing b with
  | nil => trivial
  | cons c u ih =>
    exact ⟨h b c u List.suffix_rfl, ih fun b d x hx => h b d x (hx.trans (List.suffix_cons c u))⟩

theorem silent_of_occurs (h : occurs p b (u ++ v) = false) : Silent p b u v := by
  induction u generalizing b with
  | nil => trivial
  | cons c u ih =>
    rw [List.cons_append, occurs, Bool.or_eq_false_iff] at h
    exact ⟨h.1, ih h.2⟩

theorem Silent.congr (h : Silent p b u v)
    (hvw : ∀ b c x, p b (c :: (x ++ w)) = p b (c :: (x ++ v))) : Silent p b u w := by
  induction u generalizing b with
  | nil => trivial
  | cons c u ih => exact ⟨by rw [hvw]; exact h.1, ih h.2⟩

end

/-! ### Names that are looked for -/

/-- The names of attributes that are looked for. -/
def soughtNames : List String := ["alt", "type", "placeholder", "aria-label", "id", "for"]

/-- No letter of a name counts as a character that stands behind names. -/
theorem not_sameLetter {n : String} (hn : n ∈ soughtNames) {a c : Char} (ha : a ∈ n.toList)
    (hc : endsName c = true ∨ c = '=') : sameLetter a c = false := by
  have hletters : ∀ n ∈ soughtNames, ∀ a ∈ n.toList, a.isLower = true ∨ a = '-' := by decide
  by_contra hsame
  have hsame : sameLetter a c = true := by simpa using hsame
  rcases hletters n hn a ha with ha | rfl
  · have hletter := nameLetter_of_sameLetter ha hsame
    rcases hc with hc | rfl
    · have hslash : c ≠ '/' := hletter.ne (by decide)
      have hmark : c ≠ '>' := hletter.ne (by decide)
      simp [endsName, hletter.isBlank, hslash, hmark] at hc
    · exact absurd hletter.isWord (by decide)
  · have hdash : c = '-' := eq_of_caseless (by decide) (by simpa [sameLetter] using hsame)
    rw [hdash] at hc
    exact absurd hc (by decide)

/-- A word is found in front of what stands behind names only in the name itself. -/
theorem wordAnyCase?_append {n : String} (hn : n ∈ soughtNames) (x : List Char) {w : List Char}
    (hw : ∀ c v, w = c :: v → endsName c = true ∨ c = '=') :
    Cut.wordAnyCase? n (x ++ w) = (Cut.wordAnyCase? n x).map (Cut.extend · w) := by
  have hletters : ∀ a ∈ n.toList, ∀ c v, w = c :: v → sameLetter a c = false :=
    fun a ha c v hcv => not_sameLetter hn ha (hw c v hcv)
  unfold Cut.wordAnyCase?
  generalize n.toList = as at hletters
  induction as generalizing x with
  | nil => rfl
  | cons a as ih =>
    cases x with
    | nil =>
      cases w with
      | nil => rfl
      | cons c w => exact Cut.wordBy?_neg (hletters a (by simp) c w rfl) as w
    | cons c x =>
      have ih := ih x fun d hd => hletters d (by simp [hd])
      by_cases hac : sameLetter a c = true
      · simp only [List.cons_append, Cut.wordBy?, hac, if_true, ih, Option.map_map]
        rfl
      · simp [Cut.wordBy?, hac]

/-- A name in some case. -/
def isNamed (n : String) (name : List Char) : Bool := name.map Char.toLower == n.toList

/-- The whole name is taken for the word that is looked for. -/
def isTaken (n : String) (name : List Char) : Bool := (Cut.wordAnyCase? n name).any fun k => k.rest.isEmpty

theorem sameLetter_of_toLower {a c : Char} (ha : a.toNat < 128) (h : c.toLower = a) : sameLetter a c = true := by
  have h1 : c ≠ 'İ' := by
    rintro rfl
    rw [← h] at ha
    exact absurd ha (by decide)
  have h2 : c ≠ '\u212A' := by
    rintro rfl
    rw [← h] at ha
    exact absurd ha (by decide)
  simp [sameLetter, caseless, h1, h2, h]

theorem forall₂_of_isNamed {n : String} (hascii : ∀ a ∈ n.toList, a.toNat < 128) {name : List Char}
    (h : isNamed n name = true) : List.Forall₂ (fun a c => sameLetter a c = true) n.toList name := by
  have h : name.map Char.toLower = n.toList := by simpa [isNamed] using h
  rw [← h, List.forall₂_map_left_iff]
  refine List.forall₂_same.2 fun c hc => sameLetter_of_toLower ?_ rfl
  exact hascii _ (by rw [← h]; exact List.mem_map_of_mem hc)

/-- A name is taken for itself in every case. -/
theorem wordAnyCase?_of_isNamed {n : String} (hn : n ∈ soughtNames) {name : List Char} (h : isNamed n name = true)
    (v : List Char) : Cut.Gives (Cut.wordAnyCase? n (name ++ v)) name v := by
  have hascii : ∀ n ∈ soughtNames, ∀ a ∈ n.toList, a.toNat < 128 := by decide
  exact Cut.wordBy?_gives_of_forall₂ (forall₂_of_isNamed (hascii n hn) h) rfl

/-- No name begins with a character that stands behind names. -/
theorem wordAnyCase?_of_endsName {n : String} (hn : n ∈ soughtNames) {s : List Char}
    (hs : ∀ c v, s = c :: v → endsName c = true ∨ c = '=') : Cut.wordAnyCase? n s = none := by
  have hne : ∀ n ∈ soughtNames, n.toList ≠ [] := by decide
  obtain ⟨a, as, has⟩ := List.exists_cons_of_ne_nil (hne n hn)
  rw [Cut.wordAnyCase?, has]
  cases s with
  | nil => rfl
  | cons c s => exact Cut.wordBy?_neg (not_sameLetter hn (by rw [has]; simp) (hs c s rfl)) as s

/-! ### What is looked for -/

/-- A place that reads like the name of an attribute with a value. A character that joins it to the one
before makes it the end of another name. -/
def assigns (joins : Char → Bool) (n : String) (before : Option Char) (s : List Char) : Bool :=
  !before.any joins && (Cut.wordAnyCase? n s).any fun word => (word.rest.dropWhile isBlank).head? == some '='

/-- A place that reads like an attribute with or without a value. -/
def calls (n : String) (_ : Option Char) (s : List Char) : Bool :=
  match Cut.char? isBlank s with
  | none => false
  | some space =>
    match Cut.wordAnyCase? n space.rest with
    | none => false
    | some word => word.rest.head?.any fun c => endsName c || c == '='

theorem hasAttribute_eq (n : String) (tag : List Char) : hasAttribute n tag = occurs (calls n) none tag := rfl

theorem calls_of_none {n : String} {b : Option Char} {c : Char} {s : List Char}
    (h : isBlank c = true → Cut.wordAnyCase? n s = none) : calls n b (c :: s) = false := by
  by_cases hc : isBlank c = true
  · simp [calls, Cut.char?_pos hc, h hc]
  · simp [calls, Cut.char?, hc]

/-- What may stand behind an attribute: white space, a slash or the end of the tag, and behind white space
no sign of equality. -/
structure Ends (w : List Char) : Prop where
  head : ∃ c v, w = c :: v ∧ endsName c = true
  sign : (w.dropWhile isBlank).head? ≠ some '='

theorem Ends.of_cons {w : List Char} (h : Ends w) : ∀ c v, w = c :: v → endsName c = true ∨ c = '=' := by
  rintro c v rfl
  obtain ⟨d, u, hd, hend⟩ := h.head
  obtain ⟨rfl, -⟩ := List.cons.inj hd
  exact .inl hend

theorem ends_mark (v : List Char) : Ends ('>' :: v) := ⟨⟨'>', v, rfl, rfl⟩, by simp [show isBlank '>' = false by decide]⟩

section

variable {joins : Char → Bool} {n : String} (hn : n ∈ soughtNames) {b : Option Char} {w : List Char} (hw : Ends w)
include hn hw

/-- Whether a place reads like an attribute with a value is known from the attribute that it stands in. -/
theorem assigns_append (x : List Char) : assigns joins n b (x ++ w) = assigns joins n b x := by
  have hhead : ∀ y : List Char, (((y ++ w).dropWhile isBlank).head? == some '=') =
      ((y.dropWhile isBlank).head? == some '=') := by
    intro y
    induction y with
    | nil => simpa using hw.sign
    | cons c y ih => by_cases hc : isBlank c = true <;> simp [hc, ih]
  rw [assigns, assigns, wordAnyCase?_append hn x hw.of_cons]
  cases Cut.wordAnyCase? n x with
  | none => rfl
  | some k => simp [Cut.extend, hhead]

theorem assigns_mark (c : Char) (x : List Char) :
    assigns joins n b (c :: (x ++ w)) = assigns joins n b (c :: (x ++ ['>'])) :=
  (assigns_append hn hw (c :: x)).trans (assigns_append hn (ends_mark []) (c :: x)).symm

theorem calls_append (c : Char) (x : List Char) : calls n b (c :: (x ++ w)) = calls n b (c :: (x ++ ['>'])) := by
  by_cases hc : isBlank c = true
  · simp only [calls, Cut.char?_pos hc, wordAnyCase?_append hn x hw.of_cons,
      wordAnyCase?_append hn x (ends_mark []).of_cons]
    cases Cut.wordAnyCase? n x with
    | none => rfl
    | some k =>
      obtain ⟨d, v, rfl, hd⟩ := hw.head
      cases hk : k.rest with
      | nil => simp [Cut.extend, hk, hd, show endsName '>' = true from rfl]
      | cons e y => simp [Cut.extend, hk]
  · simp [calls, Cut.char?, hc]

end

theorem assigns_of_not_mem {joins : Char → Bool} {n : String} {b : Option Char} {x : List Char} (hx : '=' ∉ x) :
    assigns joins n b x = false := by
  rw [assigns, Bool.and_eq_false_iff]
  right
  rw [Option.any_eq_false]
  intro k _
  have hk : '=' ∉ k.rest.dropWhile isBlank := fun hm =>
    hx (k.mem_of_mem_rest ((List.dropWhile_suffix _).mem hm))
  cases hdrop : k.rest.dropWhile isBlank with
  | nil => rfl
  | cons c y =>
    rw [hdrop, List.mem_cons, not_or] at hk
    simpa using Ne.symm hk.1

/-! ### Attributes -/

/-- An attribute mentions what is looked for: behind the first character of its name it reads like it
somewhere. -/
def mentions (p : Option Char → List Char → Bool) (a : SpelledAttr) : Bool :=
  occurs p a.name.head? (a.body.tail ++ ['>'])

/-- A search that finds an attribute finds it by its name. -/
structure Tells (p : Option Char → List Char → Bool) (n : String) (a : SpelledAttr) : Prop where
  called : isTaken n a.name = true → isNamed n a.name = true
  quiet : mentions p a = false

instance (p : Option Char → List Char → Bool) (n : String) (a : SpelledAttr) : Decidable (Tells p n a) :=
  decidable_of_iff (_ ∧ _) ⟨fun h => ⟨h.1, h.2⟩, fun h => ⟨h.1, h.2⟩⟩

theorem endsName_of_isBlank {c : Char} (h : isBlank c = true) : endsName c = true := by
  rw [endsName, h, Bool.true_or, Bool.true_or]

section

variable {a : SpelledAttr} (ha : a.WellFormed) {w : List Char} (hw : Ends w)
include ha

theorem exists_name : ∃ c m, a.name = c :: m ∧ a.body = c :: (m ++ a.spelling.text) ∧ isAttrChar c = true := by
  obtain ⟨c, m, hm⟩ := List.exists_cons_of_ne_nil ha.name_ne
  exact ⟨c, m, hm, by simp [SpelledAttr.body, hm], ha.name c (by simp [hm])⟩

/-- The white space before an attribute has a last character. -/
theorem exists_before : ∃ bs c, a.before = bs ++ [c] ∧ isBlank c = true ∧ ∀ d ∈ bs, isBlank d = true := by
  rcases List.eq_nil_or_concat a.before with h | ⟨bs, c, h⟩
  · exact absurd h ha.before_ne
  · rw [List.concat_eq_append] at h
    have hblank : ∀ d ∈ bs ++ [c], isBlank d = true := by
      rw [← h]
      exact ha.before
    exact ⟨bs, c, h, hblank c (by simp), fun d hd => hblank d (by simp [hd])⟩

include hw

theorem spelling_head : ∀ c v, a.spelling.text ++ w = c :: v → endsName c = true ∨ c = '=' := by
  intro c v hcv
  obtain ⟨before, name, spelling⟩ := a
  have hs := ha.spelling
  have key : ∀ l x : List Char, (∀ d ∈ l, isBlank d = true) → l ++ '=' :: x = c :: v → endsName c = true ∨ c = '=' := by
    intro l x hl hlx
    cases l with
    | nil => exact .inr (List.cons.inj hlx).1.symm
    | cons d l =>
      obtain ⟨rfl, -⟩ := List.cons.inj hlx
      exact .inl (endsName_of_isBlank (hl d (by simp)))
  cases spelling with
  | bare => exact hw.of_cons c v hcv
  | unquoted left right value =>
    refine key left (right ++ value ++ w) hs.1 ?_
    rw [← hcv]
    simp [Spelling.text]
  | quoted mark left right value =>
    refine key left (right ++ mark :: (value ++ [mark]) ++ w) hs.1 ?_
    rw [← hcv]
    simp [Spelling.text]

/-- The word that is looked for is found at the name of an attribute if the attribute is named so; else it
is not there, or the name goes on. -/
theorem wordAnyCase?_body {n : String} (hn : n ∈ soughtNames) (hcalled : isTaken n a.name = true → isNamed n a.name = true) :
    (isNamed n a.name = true ∧ Cut.Gives (Cut.wordAnyCase? n (a.body ++ w)) a.name (a.spelling.text ++ w)) ∨
      (isNamed n a.name = false ∧ ∀ k, Cut.wordAnyCase? n (a.body ++ w) = some k →
        ∃ d y, k.rest = d :: y ∧ isAttrChar d = true) := by
  have hbody : a.body ++ w = a.name ++ (a.spelling.text ++ w) := by rw [SpelledAttr.body, List.append_assoc]
  rw [hbody]
  cases hnamed : isNamed n a.name with
  | true => exact .inl ⟨rfl, wordAnyCase?_of_isNamed hn hnamed _⟩
  | false =>
    refine .inr ⟨rfl, fun k hk => ?_⟩
    rw [wordAnyCase?_append hn a.name (spelling_head ha hw)] at hk
    obtain ⟨k', hk', rfl⟩ := Option.map_eq_some_iff.1 hk
    cases hrest : k'.rest with
    | nil =>
      have htaken : isTaken n a.name = true := by simp [isTaken, hk', hrest]
      rw [hcalled htaken] at hnamed
      cases hnamed
    | cons d y =>
      refine ⟨d, y ++ (a.spelling.text ++ w), ?_, ha.name d (k'.mem_of_mem_rest (by rw [hrest]; simp))⟩
      show k'.rest ++ _ = _
      rw [hrest, List.cons_append]

/-- At its name, an attribute that has another name or no value does not read like one with a value. -/
theorem assigns_body {n : String} (hn : n ∈ soughtNames) (hcalled : isTaken n a.name = true → isNamed n a.name = true)
    (hbare : isNamed n a.name = true → a.spelling = .bare) {joins : Char → Bool} {b : Option Char} :
    assigns joins n b (a.body ++ w) = false := by
  rw [assigns, Bool.and_eq_false_iff]
  right
  rw [Option.any_eq_false]
  intro k hk
  rcases wordAnyCase?_body ha hw hn hcalled with ⟨hnamed, k', hk', -, hrest⟩ | ⟨-, hgoes⟩
  · obtain rfl := Option.some.inj (hk'.symm.trans hk)
    rw [hrest, hbare hnamed]
    simpa [Spelling.text] using hw.sign
  · obtain ⟨d, y, hrest, hd⟩ := hgoes k hk
    rw [hrest, List.dropWhile_cons_of_neg (by simp [Markup.not_blank_of_isAttrChar hd])]
    simpa using Markup.ne_of_isAttrChar hd

end

/-- Nothing is found behind the name of an attribute that mentions nothing. -/
theorem silent_body {p : Option Char → List Char → Bool} {a : SpelledAttr} {w : List Char}
    (hquiet : mentions p a = false) (hp : ∀ b c x, p b (c :: (x ++ w)) = p b (c :: (x ++ ['>']))) :
    Silent p a.name.head? a.body.tail w :=
  (silent_of_occurs hquiet).congr hp

theorem isBlank_of_isAttrChar {c : Char} (h : isAttrChar c = true) : isBlank c = false :=
  Markup.not_blank_of_isAttrChar h

/-- No attribute begins in the white space before one, apart from that one. -/
theorem calls_before {n : String} (hn : n ∈ soughtNames) {b : Option Char} {c d : Char} {x v : List Char}
    (hx : ∀ e ∈ x, isBlank e = true) (hd : isBlank d = true) : calls n b (c :: (x ++ d :: v)) = false := by
  refine calls_of_none fun _ => wordAnyCase?_of_endsName hn fun e y he => .inl (endsName_of_isBlank ?_)
  cases x with
  | nil => exact (List.cons.inj he).1 ▸ hd
  | cons f x => exact (List.cons.inj he).1 ▸ hx f (by simp)

/-- An attribute is found by its name, with or without a value. -/
theorem occurs_calls_attr {n : String} (hn : n ∈ soughtNames) {a : SpelledAttr} (ha : a.WellFormed) {w : List Char}
    (hw : Ends w) (ht : Tells (calls n) n a) (b : Option Char) :
    occurs (calls n) b (a.text ++ w) = (isNamed n a.name || occurs (calls n) (a.text.getLast?.or b) w) := by
  obtain ⟨bs, c, hbefore, hc, hbs⟩ := exists_before ha
  obtain ⟨d, m, hname, hbody, hd⟩ := exists_name ha
  have htext : a.text ++ w = bs ++ (c :: (a.body ++ w)) := by simp [SpelledAttr.text, hbefore]
  have hsilent : Silent (calls n) b bs (c :: (a.body ++ w)) := silent_of_forall fun b e x hx =>
    calls_before hn (fun f hf => hbs f (hx.mem (List.mem_cons_of_mem _ hf))) hc
  -- The place before the name finds the attribute by its name.
  have hplace : ∀ b, calls n b (c :: (a.body ++ w)) = isNamed n a.name := by
    intro b
    rcases wordAnyCase?_body ha hw hn ht.called with ⟨hnamed, k, hk, -, hrest⟩ | ⟨hnamed, hnone⟩
    · have hend : k.rest.head?.any (fun c => endsName c || c == '=') = true := by
        rw [hrest]
        cases hv : a.spelling.text ++ w with
        | nil =>
          obtain ⟨e, v, rfl, -⟩ := hw.head
          simp at hv
        | cons e v => simpa using spelling_head ha hw e v hv
      simp only [calls, Cut.char?_pos hc, hk, hend, hnamed]
    · cases hk : Cut.wordAnyCase? n (a.body ++ w) with
      | none => simp [calls, Cut.char?_pos hc, hk, hnamed]
      | some k =>
        obtain ⟨e, y, hrest, he⟩ := hnone k hk
        have hne : endsName e = false ∧ (e == '=') = false := by
          have h1 : e ≠ '/' := Markup.ne_of_isAttrChar he
          have h2 : e ≠ '>' := Markup.ne_of_isAttrChar he
          have h3 : e ≠ '=' := Markup.ne_of_isAttrChar he
          simp [endsName, isBlank_of_isAttrChar he, h1, h2, h3]
        simp [calls, Cut.char?_pos hc, hk, hrest, hne, hnamed]
  have hfirst : ∀ b s, calls n b (d :: s) = false := fun b s =>
    calls_of_none fun hblank => absurd hblank (by simp [isBlank_of_isAttrChar hd])
  have hrest := silent_body ht.quiet fun b c x => calls_append hn hw (b := b) c x
  rw [hname, hbody, List.head?_cons, List.tail_cons] at hrest
  have hlast : a.text.getLast?.or b = (m ++ a.spelling.text).getLast?.or (some d) := by
    have : a.text = bs ++ [c] ++ d :: (m ++ a.spelling.text) := by
      rw [SpelledAttr.text, hbefore, hbody]
    rw [this, List.getLast?_append, Option.or_assoc, ← getLast?_or_cons d _ (_)]
  rw [htext, hsilent.occurs_append, occurs, hplace, hbody, List.cons_append, occurs, hfirst, Bool.false_or,
    hrest.occurs_append, hlast]

/-! ### Tags -/

/-- The names of the elements whose attributes are looked at. -/
def describedNames : List String := ["img", "input", "label"]

/-- An attribute with a value and no quotes. -/
def isUnquoted (a : SpelledAttr) : Bool :=
  match a.spelling with
  | .unquoted .. => true
  | _ => false

/-- A start tag of the given name in some case: its attributes are set apart by white space, and what
stands before its end cannot be part of an unquoted value. -/
structure Regular (name : String) (t : StartTag) : Prop where
  name : isNamed name t.name = true
  attrs : ∀ a ∈ t.attrs, a.WellFormed
  tail : ∀ c ∈ t.tail, isGapChar c = true
  slash : ∀ a ∈ t.attrs.getLast?, isUnquoted a = true → t.tail.head? ≠ some '/'
  marks : '<' ∉ t.inner ∧ '>' ∉ t.inner

theorem ends_tail {u : List Char} (hu : ∀ c ∈ u, isGapChar c = true) (v : List Char) : Ends (u ++ '>' :: v) where
  head := by
    cases u with
    | nil => exact ⟨'>', v, rfl, rfl⟩
    | cons c u =>
      refine ⟨c, u ++ '>' :: v, rfl, ?_⟩
      have hc := hu c (by simp)
      simp only [isGapChar, Bool.or_eq_true] at hc
      rcases hc with hc | hc
      · exact endsName_of_isBlank hc
      · simp [endsName, hc]
  sign := by
    induction u with
    | nil => simp [show isBlank '>' = false by decide]
    | cons c u ih =>
      by_cases hc : isBlank c = true
      · rw [List.cons_append, List.dropWhile_cons_of_pos hc]
        exact ih fun d hd => hu d (by simp [hd])
      · have hslash : c = '/' := by
          have := hu c (by simp)
          simpa [isGapChar, hc] using this
        simp [hslash, show isBlank '/' = false by decide]

theorem ends_attr {a : SpelledAttr} (ha : a.WellFormed) (w : List Char) : Ends (a.text ++ w) := by
  obtain ⟨bs, c, hbefore, hc, hbs⟩ := exists_before ha
  obtain ⟨d, m, -, hbody, hd⟩ := exists_name ha
  have hblanks : ∀ e ∈ a.before, isBlank e = true := ha.before
  have htext : a.text ++ w = a.before ++ d :: (m ++ a.spelling.text ++ w) := by
    rw [SpelledAttr.text, hbody]
    simp
  rw [htext]
  refine ⟨?_, ?_⟩
  · obtain ⟨e, y, he⟩ := List.exists_cons_of_ne_nil ha.before_ne
    exact ⟨e, y ++ d :: (m ++ a.spelling.text ++ w), by rw [he]; rfl,
      endsName_of_isBlank (hblanks e (by simp [he]))⟩
  · rw [List.dropWhile_append_of_pos hblanks,
      List.dropWhile_cons_of_neg (by simp [isBlank_of_isAttrChar hd]), List.head?_cons, ne_eq, Option.some.injEq]
    exact Markup.ne_of_isAttrChar hd

theorem ends_attrs {attrs : List SpelledAttr} (ha : ∀ a ∈ attrs, a.WellFormed) {w : List Char} (hw : Ends w) :
    Ends (attrs.flatMap SpelledAttr.text ++ w) := by
  cases attrs with
  | nil => exact hw
  | cons a attrs =>
    rw [List.flatMap_cons, List.append_assoc]
    exact ends_attr (ha a (by simp)) _

/-- The attributes of a tag are found one by one. -/
theorem occurs_calls_attrs {n : String} (hn : n ∈ soughtNames) {attrs : List SpelledAttr}
    (ha : ∀ a ∈ attrs, a.WellFormed) (ht : ∀ a ∈ attrs, Tells (calls n) n a) {w : List Char} (hw : Ends w)
    (b : Option Char) : ∃ b', occurs (calls n) b (attrs.flatMap SpelledAttr.text ++ w) =
      (attrs.any (fun a => isNamed n a.name) || occurs (calls n) b' w) := by
  induction attrs generalizing b with
  | nil => exact ⟨b, rfl⟩
  | cons a attrs ih =>
    have hrest : ∀ x ∈ attrs, x.WellFormed := fun x hx => ha x (by simp [hx])
    obtain ⟨b', hb'⟩ := ih hrest (fun x hx => ht x (by simp [hx])) (a.text.getLast?.or b)
    refine ⟨b', ?_⟩
    rw [List.flatMap_cons, List.append_assoc, occurs_calls_attr hn (ha a (by simp)) (ends_attrs hrest hw)
      (ht a (by simp)), hb', List.any_cons, Bool.or_assoc]

theorem isTagName_of_described {name : String} (hname : name ∈ describedNames) : IsTagName name := by
  have hletters : ∀ n ∈ describedNames, ∀ a ∈ n.toList, a.isLower = true := by decide
  exact hletters name hname

theorem sameLetters_of_isNamed {name : String} (hname : name ∈ describedNames) {w : List Char}
    (h : isNamed name w = true) : List.Forall₂ (fun a c => sameLetter a c = true) name.toList w := by
  have hascii : ∀ n ∈ describedNames, ∀ a ∈ n.toList, a.toNat < 128 := by decide
  exact forall₂_of_isNamed (hascii name hname) h

theorem nameLetter_of_isNamed {name : String} (hname : name ∈ describedNames) {w : List Char}
    (h : isNamed name w = true) : ∀ c ∈ w, NameLetter c :=
  nameLetter_of_forall₂ (isTagName_of_described hname) (sameLetters_of_isNamed hname h)

theorem text_eq (t : StartTag) :
    t.text = ('<' :: t.name) ++ (t.attrs.flatMap SpelledAttr.text ++ (t.tail ++ ['>'])) := by
  simp [StartTag.text, tagText, StartTag.inner]

theorem endsName_of_mem_tail {u : List Char} (hu : ∀ c ∈ u, isGapChar c = true) :
    ∀ c ∈ u ++ ['>'], endsName c = true := by
  intro c hc
  rcases List.mem_append.1 hc with hc | hc
  · have hc := hu c hc
    simp only [isGapChar, Bool.or_eq_true] at hc
    rcases hc with hc | hc
    · exact endsName_of_isBlank hc
    · simp [endsName, hc]
  · rw [List.mem_singleton.1 hc]
    rfl

/-- The search for an attribute finds whether a tag has it. -/
theorem hasAttribute_text {name n : String} (hname : name ∈ describedNames) (hn : n ∈ soughtNames) {t : StartTag}
    (ht : Regular name t) (htells : ∀ a ∈ t.attrs, Tells (calls n) n a) :
    hasAttribute n t.text = t.attrs.any fun a => isNamed n a.name := by
  have hstart : Silent (calls n) none ('<' :: t.name) (t.attrs.flatMap SpelledAttr.text ++ (t.tail ++ ['>'])) := by
    refine silent_of_forall fun b c x hx => ?_
    have hc : isBlank c = false := by
      rcases List.mem_cons.1 (hx.mem (by simp : c ∈ c :: x)) with rfl | hc
      · decide
      · exact (nameLetter_of_isNamed hname ht.name c hc).isBlank
    exact calls_of_none fun hblank => absurd hblank (by simp [hc])
  obtain ⟨b', hb'⟩ := occurs_calls_attrs hn ht.attrs htells (ends_tail ht.tail [])
    (('<' :: t.name).getLast?.or none)
  have htail : Silent (calls n) b' (t.tail ++ ['>']) [] := silent_of_forall fun b c x hx => by
    rw [List.append_nil]
    refine calls_of_none fun _ => wordAnyCase?_of_endsName hn fun d y hd => .inl ?_
    exact endsName_of_mem_tail ht.tail d (hx.mem (by simp [hd]))
  rw [hasAttribute_eq, text_eq, hstart.occurs_append, hb']
  have hnil : occurs (calls n) b' (t.tail ++ ['>']) = false := by
    have := htail.occurs_append
    rw [List.append_nil] at this
    rw [this]
    rfl
  rw [hnil, Bool.or_false]

/-! ### Values -/

/-- A character that joins what stands behind it to a name. -/
def isHyphened (c : Char) : Bool := isWord c || c == '-'

/-- The value of an attribute that is read at a place. -/
def valueAt? (n : String) (before : Option Char) (s : List Char) : Option (List Char) := do
  if before.any isHyphened then none
  else
    let word ← Cut.wordAnyCase? n s
    let equals ← Cut.char? (· == '=') (word.rest.dropWhile isBlank)
    attributeValue? (equals.rest.dropWhile isBlank)

theorem attribute?_eq (n : String) (tag : List Char) : attribute? n tag = firstMatch? (valueAt? n) none tag := rfl

theorem valueAt?_of_assigns {n : String} (b : Option Char) (s : List Char) (h : assigns isHyphened n b s = false) :
    valueAt? n b s = none := by
  rw [assigns, Bool.and_eq_false_iff] at h
  unfold valueAt?
  split
  · rfl
  · rename_i hb
    rcases h with h | h
    · simp [hb] at h
    · cases hk : Cut.wordAnyCase? n s with
      | none => rfl
      | some k =>
        rw [hk, Option.any_some] at h
        have hnone : Cut.char? (· == '=') (k.rest.dropWhile isBlank) = none :=
          Cut.char?_eq_none (by simpa using h)
        simp only [hnone, Option.bind_eq_bind, Option.bind_some, Option.bind_none]

theorem attributeValue?_quoted {mark : Char} (hmark : mark = '"' ∨ mark = '\'') {v : List Char} (hv : mark ∉ v)
    (w : List Char) : attributeValue? (mark :: (v ++ mark :: w)) = some v := by
  have htake : (v ++ mark :: w).takeWhile (· != mark) = v := (Cut.span_ne_gives rfl hv).1
  rcases hmark with rfl | rfl
  · simp [attributeValue?, htake]
  · simp [attributeValue?, htake]

theorem attributeValue?_unquoted {v : List Char} (hne : v ≠ []) (hv : ∀ c ∈ v, isBlank c = false ∧ c ∉ ['>', '"', '\''])
    {w : List Char} (hw : ∀ c u, w = c :: u → isBlank c = true ∨ c = '>') : attributeValue? (v ++ w) = some v := by
  obtain ⟨c, u, rfl⟩ := List.exists_cons_of_ne_nil hne
  obtain ⟨k, hk, ht, -⟩ := Markup.unquoted_gives hne hv hw (s := c :: (u ++ w)) rfl
  have hc := (hv c (by simp)).2
  simp only [List.mem_cons, List.not_mem_nil, or_false, not_or] at hc
  rw [List.cons_append, attributeValue?]
  simp only [hk, Option.map_some, ht, hc.2.1, hc.2.2, decide_false, Bool.false_and, Bool.false_eq_true, if_false,
    Option.orElse_none]

/-- Behind a sign of equality, with white space around it, stands the value. -/
theorem value_behind_sign {u l r s : List Char} {c : Char} {y : List Char} (hu : u = l ++ '=' :: (r ++ s))
    (hl : ∀ d ∈ l, isBlank d = true) (hr : ∀ d ∈ r, isBlank d = true) (hc : isBlank c = false)
    (hs : s = c :: y := by rfl) :
    ((Cut.char? (· == '=') (u.dropWhile isBlank)).bind fun equals =>
      attributeValue? (equals.rest.dropWhile isBlank)) = attributeValue? s := by
  have hequals : isBlank '=' = false := by decide
  rw [hu, List.dropWhile_append_of_pos hl, List.dropWhile_cons_of_neg (by simp [hequals]),
    Cut.char?_pos (p := (· == '=')) rfl, Option.bind_some, List.dropWhile_append_of_pos hr, hs,
    List.dropWhile_cons_of_neg (by simp [hc])]

/-- What stands behind an attribute is not part of its value. -/
def Follows (a : SpelledAttr) (w : List Char) : Prop := isUnquoted a = true → w.head? ≠ some '/'

/-- White space stands behind an attribute if another one follows. -/
theorem follows_cons {a : SpelledAttr} {attrs : List SpelledAttr} (ha : ∀ x ∈ attrs, x.WellFormed) {w : List Char}
    (hlast : ∀ x, (a :: attrs).getLast? = some x → Follows x w) :
    Follows a (attrs.flatMap SpelledAttr.text ++ w) ∧ ∀ x, attrs.getLast? = some x → Follows x w := by
  refine ⟨?_, fun x hx => hlast x (by simp [List.getLast?_cons, hx])⟩
  cases attrs with
  | nil => exact hlast a rfl
  | cons a' attrs =>
    intro _ hslash
    obtain ⟨c, y, hbefore⟩ := List.exists_cons_of_ne_nil (ha a' (by simp)).before_ne
    have hc := (ha a' (by simp)).before c (by simp [hbefore])
    have hfirst : c = '/' := by simpa [SpelledAttr.text, hbefore] using hslash
    rw [hfirst] at hc
    exact absurd hc (by decide)

theorem Follows.head {a : SpelledAttr} {w : List Char} (h : Follows a w) (hw : Ends w) (ha : isUnquoted a = true) :
    ∃ c x, w = c :: x ∧ (isBlank c = true ∨ c = '>') := by
  obtain ⟨c, x, rfl, hends⟩ := hw.head
  have hslash : c ≠ '/' := fun he => h ha (by rw [he]; rfl)
  exact ⟨c, x, rfl, by simpa [endsName, hslash] using hends⟩

/-- What a tag leaves behind its attributes stands behind the last of them. -/
theorem Regular.follows {name : String} {t : StartTag} (ht : Regular name t) :
    ∀ a, t.attrs.getLast? = some a → Follows a (t.tail ++ ['>']) := by
  intro a ha hunquoted hslash
  cases htail : t.tail with
  | nil => simp [htail] at hslash
  | cons c u => exact ht.slash a ha hunquoted (by simpa [htail] using hslash)

section

variable {n : String} (hn : n ∈ soughtNames) {a : SpelledAttr} (ha : a.WellFormed) {w : List Char} (hw : Ends w)
include hn ha hw

/-- At its name an attribute is read with its value. -/
theorem valueAt?_body (hfollows : Follows a w) (hcalled : isTaken n a.name = true → isNamed n a.name = true)
    {b : Option Char} (hb : b.any isHyphened = false) :
    valueAt? n b (a.body ++ w) = if isNamed n a.name then a.spelling.value else none := by
  cases hnamed : isNamed n a.name with
  | false => exact valueAt?_of_assigns b _ (assigns_body ha hw hn hcalled (by simp [hnamed]))
  | true =>
    obtain ⟨before, name, spelling⟩ := a
    have hs := ha.spelling
    obtain ⟨k, hk, -, hrest⟩ := wordAnyCase?_of_isNamed hn hnamed (spelling.text ++ w)
    have hgo : valueAt? n b (name ++ (spelling.text ++ w)) =
        (Cut.char? (· == '=') ((spelling.text ++ w).dropWhile isBlank)).bind fun equals =>
          attributeValue? (equals.rest.dropWhile isBlank) := by
      simp only [valueAt?, hb, hk, Bool.false_eq_true, if_false, Option.bind_eq_bind, Option.bind_some]
      rw [hrest]
    cases spelling with
    | bare => exact valueAt?_of_assigns b _ (assigns_body ha hw hn hcalled fun _ => rfl)
    | unquoted l r v =>
      obtain ⟨hl, hr, hne, hv⟩ := hs
      have hend : ∀ c u, w = c :: u → isBlank c = true ∨ c = '>' := by
        rintro c u rfl
        obtain ⟨d, y, hd, hend⟩ := hfollows.head hw rfl
        exact (List.cons.inj hd).1 ▸ hend
      obtain ⟨c, u, rfl⟩ := List.exists_cons_of_ne_nil hne
      rw [SpelledAttr.body, List.append_assoc, hgo]
      exact (value_behind_sign (s := c :: u ++ w) (by simp [Spelling.text]) hl hr (hv c (by simp)).1).trans
        (attributeValue?_unquoted hne hv hend)
    | quoted mark l r v =>
      obtain ⟨hl, hr, hmark, hv⟩ := hs
      have hblank : isBlank mark = false := by rcases hmark with rfl | rfl <;> decide
      rw [SpelledAttr.body, List.append_assoc, hgo]
      exact (value_behind_sign (s := mark :: (v ++ mark :: w)) (by simp [Spelling.text]) hl hr hblank).trans
        (attributeValue?_quoted hmark hv w)

end

theorem isHyphened_of_isBlank {c : Char} (h : isBlank c = true) : isHyphened c = false := by
  have hne : c ≠ '-' := by
    rintro rfl
    exact absurd h (by decide)
  simp [isHyphened, isWord_of_isBlank h, hne]

/-- The search for a value goes on behind an attribute of another name. -/
theorem firstMatch?_attr {n : String} (hn : n ∈ soughtNames) {a : SpelledAttr} (ha : a.WellFormed) {w : List Char}
    (hw : Ends w) (hfollows : Follows a w) (ht : Tells (assigns isHyphened n) n a) (b : Option Char) :
    firstMatch? (valueAt? n) b (a.text ++ w) =
      ((if isNamed n a.name then a.spelling.value else none).orElse fun _ =>
        firstMatch? (valueAt? n) (a.text.getLast?.or b) w) := by
  obtain ⟨bs, c, hbefore, hc, hbs⟩ := exists_before ha
  obtain ⟨d, m, hname, hbody, hd⟩ := exists_name ha
  have hblanks : ∀ e ∈ a.before, isBlank e = true := ha.before
  have hsilent : Silent (assigns isHyphened n) b a.before (a.body ++ w) := silent_of_forall fun b e x hx => by
    have hnone : Cut.wordAnyCase? n (e :: (x ++ (a.body ++ w))) = none :=
      wordAnyCase?_of_endsName hn fun f y hf =>
        .inl (endsName_of_isBlank ((List.cons.inj hf).1 ▸ hblanks e (hx.mem (by simp))))
    rw [assigns, hnone, Option.any_none, Bool.and_false]
  have hlast : a.before.getLast?.or b = some c := by rw [hbefore]; simp
  have hplace := valueAt?_body hn ha hw hfollows ht.called (b := some c)
    (by simpa using isHyphened_of_isBlank hc)
  have hrest := silent_body ht.quiet fun b c x => assigns_mark hn hw c x
  rw [hname, hbody, List.head?_cons, List.tail_cons] at hrest
  have hend : a.text.getLast?.or b = (m ++ a.spelling.text).getLast?.or (some d) := by
    rw [SpelledAttr.text, hbody, List.getLast?_append, Option.or_assoc, getLast?_or_cons]
  rw [SpelledAttr.text, List.append_assoc, hsilent.firstMatch?_append valueAt?_of_assigns, hlast, ← hplace, hbody,
    List.cons_append, firstMatch?, hrest.firstMatch?_append valueAt?_of_assigns, ← hend, SpelledAttr.text, hbody]

/-- The value of the first attribute of a name that has one. -/
def givenValue? (n : String) (attrs : List Attr) : Option (List Char) :=
  attrs.findSome? fun a => if isNamed n a.name then a.value else none

theorem givenValue?_cons (n : String) (a : Attr) (attrs : List Attr) : givenValue? n (a :: attrs) =
    (if isNamed n a.name then a.value else none).orElse fun _ => givenValue? n attrs := by
  rw [givenValue?, List.findSome?_cons]
  cases (if isNamed n a.name then a.value else none) <;> rfl

/-- The attributes of a tag are read one by one. -/
theorem firstMatch?_attrs {n : String} (hn : n ∈ soughtNames) {attrs : List SpelledAttr}
    (ha : ∀ a ∈ attrs, a.WellFormed) (ht : ∀ a ∈ attrs, Tells (assigns isHyphened n) n a) {w : List Char}
    (hw : Ends w) (hlast : ∀ a, attrs.getLast? = some a → Follows a w) (b : Option Char) :
    ∃ b', firstMatch? (valueAt? n) b (attrs.flatMap SpelledAttr.text ++ w) =
      (givenValue? n (attrs.map SpelledAttr.attr)).orElse fun _ => firstMatch? (valueAt? n) b' w := by
  induction attrs generalizing b with
  | nil => exact ⟨b, rfl⟩
  | cons a attrs ih =>
    have hrest : ∀ x ∈ attrs, x.WellFormed := fun x hx => ha x (by simp [hx])
    obtain ⟨hfollows, hlast⟩ := follows_cons hrest hlast
    obtain ⟨b', hb'⟩ := ih hrest (fun x hx => ht x (by simp [hx])) hlast (a.text.getLast?.or b)
    refine ⟨b', ?_⟩
    rw [List.flatMap_cons, List.append_assoc, firstMatch?_attr hn (ha a (by simp)) (ends_attrs hrest hw) hfollows
      (ht a (by simp)), hb', List.map_cons, givenValue?_cons]
    show _ = ((if isNamed n a.name then a.spelling.value else none).orElse _).orElse _
    cases (if isNamed n a.name then a.spelling.value else none) <;> rfl

/-- Nothing is read where no sign of equality stands. -/
theorem silent_of_not_mem {joins : Char → Bool} {n : String} (hn : n ∈ soughtNames) {b : Option Char} {u w : List Char}
    (hu : '=' ∉ u) (hw : Ends w) : Silent (assigns joins n) b u w := silent_of_forall fun b c x hx => by
  rw [← List.cons_append, assigns_append hn hw (c :: x)]
  exact assigns_of_not_mem fun hm => hu (hx.mem hm)

theorem equals_not_mem_start {name : String} (hname : name ∈ describedNames) {t : StartTag} (ht : Regular name t) :
    '=' ∉ '<' :: t.name := by
  rw [List.mem_cons, not_or]
  exact ⟨by decide, fun hm => absurd (nameLetter_of_isNamed hname ht.name _ hm).isWord (by decide)⟩

/-- The search for a value finds the one that a tag gives first. -/
theorem attribute?_text {name n : String} (hname : name ∈ describedNames) (hn : n ∈ soughtNames) {t : StartTag}
    (ht : Regular name t) (htells : ∀ a ∈ t.attrs, Tells (assigns isHyphened n) n a) :
    attribute? n t.text = givenValue? n t.attrList := by
  have hends := ends_tail ht.tail []
  have hstart : Silent (assigns isHyphened n) none ('<' :: t.name) _ :=
    silent_of_not_mem hn (equals_not_mem_start hname ht) (ends_attrs ht.attrs hends)
  obtain ⟨b', hb'⟩ := firstMatch?_attrs hn ht.attrs htells hends ht.follows (('<' :: t.name).getLast?.or none)
  have htail : firstMatch? (valueAt? n) b' (t.tail ++ ['>']) = none := by
    have hsilent : Silent (assigns isHyphened n) b' t.tail ['>'] := silent_of_not_mem hn
      (fun hm => absurd (ht.tail _ hm) (by decide)) (ends_mark [])
    have hmark : ∀ b, valueAt? n b ['>'] = none := fun b => valueAt?_of_assigns b _ (assigns_of_not_mem (by decide))
    have hnil : ∀ b, valueAt? n b [] = none := fun b => valueAt?_of_assigns b _ (assigns_of_not_mem (by simp))
    rw [hsilent.firstMatch?_append valueAt?_of_assigns, firstMatch?, hmark, Option.orElse_none, firstMatch?, hnil]
  rw [attribute?_eq, text_eq, hstart.firstMatch?_append valueAt?_of_assigns, hb', htail, StartTag.attrList]
  cases givenValue? n (t.attrs.map SpelledAttr.attr) <;> rfl

/-! ### Reading -/

theorem Ends.not_attrChar {w : List Char} (hw : Ends w) : ∀ c v, w = c :: v → isAttrChar c = false := by
  rintro c v rfl
  obtain ⟨d, x, hd, hends⟩ := hw.head
  obtain ⟨rfl, -⟩ := List.cons.inj hd
  simp only [endsName, Bool.or_eq_true, beq_iff_eq] at hends
  rcases hends with (hblank | rfl) | rfl
  · simp [isAttrChar, hblank]
  · decide
  · decide

/-- The attributes of a tag are read as they are spelt. -/
theorem attrs?_of_ends {attrs : List SpelledAttr} (ha : ∀ a ∈ attrs, a.WellFormed) {u : List Char}
    (hu : ∀ c ∈ u, isGapChar c = true) (hlast : ∀ a, attrs.getLast? = some a → Follows a (u ++ ['>']))
    {s : List Char} (hs : s = attrs.flatMap SpelledAttr.text ++ (u ++ ['>'])) :
    ∃ k : Cut s, Markup.attrs? s = some (attrs.map SpelledAttr.attr, k) ∧ k.rest = [] := by
  induction attrs generalizing s with
  | nil =>
    obtain ⟨k, hk, -, hr⟩ := Markup.attrs?_nil hu hs
    exact ⟨k, hk, hr⟩
  | cons a attrs ih =>
    have hrest : ∀ x ∈ attrs, x.WellFormed := fun x hx => ha x (by simp [hx])
    obtain ⟨hfollows, hlast⟩ := follows_cons hrest hlast
    have hends := ends_attrs hrest (ends_tail hu [])
    obtain ⟨k, -, hr, hk⟩ := Markup.attrs?_cons_of_attr (ha a (by simp)) (s := s)
      (w := attrs.flatMap SpelledAttr.text ++ (u ++ ['>'])) (by rw [hs]; simp) fun ht =>
        Markup.attr?_of_stop (ha a (by simp)) ht hends.not_attrChar hends.sign fun l r v hv =>
          hfollows.head hends (by simp [isUnquoted, hv])
    obtain ⟨k', hk', hr'⟩ := ih hrest hlast hr
    refine ⟨k.andThen k', ?_, hr'⟩
    rw [hk, hk']
    rfl

theorem isAlpha_of_isLower_toLower {c : Char} (h : c.toLower.isLower = true) : c.isAlpha = true := by
  by_cases hc : c.isUpper = true
  · show (c.isUpper || c.isLower) = true
    rw [hc, Bool.true_or]
  · have heq : c.toLower = c := dif_neg fun hupper => hc (decide_eq_true hupper)
    rw [heq] at h
    exact Markup.isAlpha_of_isLower h

/-- The reader finds the name and the attributes of a tag that is looked at. -/
theorem read_of_regular {name : String} (hname : name ∈ describedNames) {t : StartTag} (ht : Regular name t) :
    Markup.readStartTag? t.text = some (t.name, t.attrList) := by
  have hends := ends_attrs ht.attrs (ends_tail ht.tail [])
  refine Markup.readStartTag?_of_attrs ?_ (fun d x hd => ?_) (attrs?_of_ends ht.attrs ht.tail ht.follows)
  · have hlower : ∀ n ∈ describedNames, n.toList ≠ [] ∧ ∀ a ∈ n.toList, a.isLower = true := by decide
    have hmap : t.name.map Char.toLower = name.toList := by simpa [isNamed] using ht.name
    have hletter : ∀ c ∈ t.name, c.isAlpha = true := fun c hc =>
      isAlpha_of_isLower_toLower ((hlower name hname).2 _ (by rw [← hmap]; exact List.mem_map_of_mem hc))
    have hne : t.name ≠ [] := by
      rintro hnil
      rw [hnil] at hmap
      exact (hlower name hname).1 hmap.symm
    obtain ⟨c, n, hcut⟩ := List.exists_cons_of_ne_nil hne
    refine ⟨c, n, hcut, hletter c (by simp [hcut]), fun d hd => ?_⟩
    have hd := nameLetter_of_isNamed hname ht.name d (by simp [hcut, hd])
    have hslash : d ≠ '/' := hd.ne
    have hmark : d ≠ '>' := hd.ne
    simp [Markup.isTagChar, hd.isBlank, hslash, hmark]
  · obtain ⟨e, y, he, hend⟩ := hends.head
    rw [he] at hd
    obtain ⟨rfl, -⟩ := List.cons.inj hd
    simp only [endsName, Bool.or_eq_true, beq_iff_eq] at hend
    rcases hend with (hblank | rfl) | rfl
    · simp [Markup.isTagChar, hblank]
    · decide
    · decide

end PagePress.Inspect
