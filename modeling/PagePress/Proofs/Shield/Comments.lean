import Mathlib
import PagePress.Proofs.Reduce.Comments
import PagePress.Proofs.Shield.Outline
import PagePress.Proofs.Text.Case

/-!
Removal of comments from a text made up of texts, tags, comments and shielded elements. Elements
are set aside before comments are looked for, so an element that begins in a comment and ends
behind it takes the end of the comment away. Where there is none such (`CommentsApart`), exactly the
comments go (`stripComments_text`). A text with an outline and without comments stays as it is.
-/

namespace PagePress.Html.Shield

open Text Reduce

/-! ### Items -/

/-- A part of a document: text, a tag by what stands between its marks, a comment by its body, or
a shielded element. -/
inductive Item where
  | text (s : List Char)
  | tag (s : List Char)
  | comment (body : List Char)
  | element (u : List Char)

namespace Item

/-- The characters of an item. -/
def chars : Item → List Char
  | text s => s
  | tag s => tagText s
  | comment b => "<!--".toList ++ b ++ "-->".toList
  | element u => u

def isComment : Item → Bool
  | comment _ => true
  | _ => false

/-- A text holds no `<`; a tag is neither a comment nor the opening tag of a shielded element, and
holds no marks; a comment may go, and ends at its first `-->`; an element is taken as a whole. -/
def WellFormed : Item → Prop
  | text s => '<' ∉ s
  | tag s => '<' ∉ s ∧ '>' ∉ s ∧ ¬ "!--".toList <+: s ∧ Unshielded s
  | comment b => ¬ "-->".toList <:+: b ∧ isConditional b = false
  | element u => IsElement u

end Item

/-- The text of a document. -/
def text (d : List Item) : List Char := d.flatMap Item.chars

/-- The document without its comments. -/
def uncommented (d : List Item) : List Item := d.filter fun x => !x.isComment

/-- No shielded element that begins in the first text goes on into the second, which follows it. -/
def Apart (u v : List Char) : Prop := ∃ p q, segments shielded? (u ++ v) = p ++ q ∧ source p = u

/-- No shielded element begins in a comment of the document and ends behind it. -/
def CommentsApart : List Item → Prop
  | [] => True
  | .comment b :: d => Apart b ("-->".toList ++ text d) ∧ CommentsApart d
  | _ :: d => CommentsApart d

@[simp] theorem text_nil : text [] = [] := rfl

@[simp] theorem text_cons (x : Item) (d : List Item) : text (x :: d) = x.chars ++ text d := rfl

theorem Apart.segments_append {u v : List Char} (h : Apart u v) :
    segments shielded? (u ++ v) = segments shielded? u ++ segments shielded? v := by
  obtain ⟨p, q, hpq, rfl⟩ := h
  obtain ⟨hscanned, hpieces⟩ := scanned_segments (source p ++ v)
  rw [hpq] at hscanned
  obtain ⟨hp, hq⟩ := scanned_of_append (fun u a hu => hpieces u a (by rw [hpq]; simp [hu])) hscanned
  have hsource : source (p ++ q) = source p ++ v := by
    rw [← hpq]
    exact source_segments shielded? _
  rw [source_append] at hsource
  rw [hpq, ← List.append_cancel_left hsource, hp, hq, forget_unit, forget_unit]

/-! ### Shielding -/

/-- What the scan for shielded elements makes of an item. -/
def Item.segments : Item → List (Segment Unit)
  | text s => s.map .plain
  | tag s => (tagText s).map .plain
  | comment b => "<!--".toList.map .plain ++ (Text.segments shielded? b ++ "-->".toList.map .plain)
  | element u => [.piece u ()]

theorem passes_shielded_declaration : Passes shielded? "<!--".toList := by
  refine passes_cons Markup.opensWith_shielded.contextFree (fun v => ?_) (passes_shielded (by decide))
  refine shielded?_of_tagStart? fun name hname => ?_
  simp only [names, List.mem_cons, List.not_mem_nil, or_false] at hname
  rcases hname with rfl | rfl | rfl | rfl <;> exact Markup.tagStart?_of_first rfl (by decide) _

theorem segments_text {d : List Item} (hd : ∀ x ∈ d, x.WellFormed) (hc : CommentsApart d) :
    segments shielded? (text d) = d.flatMap Item.segments := by
  induction d with
  | nil => exact segments_nil
  | cons x d ih =>
    have hx := hd x (by simp)
    have hrest : ∀ x ∈ d, x.WellFormed := fun y hy => hd y (List.mem_cons_of_mem _ hy)
    rw [text_cons, List.flatMap_cons]
    cases x with
    | text s => exact (passes_shielded hx _).trans (by rw [ih hrest hc]; rfl)
    | tag s => exact (passes_shielded_tag hx.1 hx.2.2.2 _).trans (by rw [ih hrest hc]; rfl)
    | comment b =>
      have hclose := passes_shielded (u := "-->".toList) (by decide) (text d)
      rw [Item.chars, List.append_assoc, List.append_assoc, passes_shielded_declaration, hc.1.segments_append, hclose,
        ih hrest hc.2, Item.segments]
      simp
    | element u => exact (IsElement.takes hx _).trans (by rw [ih hrest hc]; rfl)

/-! ### Masked comments -/

theorem dash_not_mem_placeholder (i : Nat) : '-' ∉ placeholder i := by
  intro h
  rcases mem_placeholder h with h | h | h | h <;> exact absurd h (by decide)

theorem exists_of_word? {w : String} {s : List Char} (h : (Cut.word? w s).isSome = true) :
    ∃ r, s = w.toList ++ r := by
  obtain ⟨k, hk⟩ := Option.isSome_iff_exists.1 h
  exact ⟨k.rest, by rw [← Cut.text_of_word? hk, k.append_eq]⟩

section

variable {q : List (Segment Nat)} {v : List Char}

/-- A character that neither begins a placeholder nor follows the segments is the first of them. -/
theorem exists_plain_cons {c d : Char} {r : List Char} (hc : c ≠ '<') (hd : c ≠ d)
    (h : slots q ++ d :: v = c :: r) : ∃ q', q = .plain c :: q' ∧ slots q' ++ d :: v = r := by
  cases q with
  | nil => exact absurd (List.cons.inj h).1.symm hd
  | cons x q =>
    cases x with
    | plain e =>
      obtain ⟨rfl, hr⟩ := List.cons.inj h
      exact ⟨q, rfl, hr⟩
    | piece u i => exact absurd (List.cons.inj h).1.symm hc

/-- Placeholders do not end a comment, and nothing before its end does. -/
theorem word?_slots (hq : ¬ ['-', '-', '>'] <:+: source q) {x y : List Char} {c : Char}
    (h : slots q = x ++ c :: y) :
    (Cut.word? "-->" (c :: y ++ '-' :: '-' :: '>' :: v)).isSome = false := by
  by_contra hsome
  obtain ⟨r, hr⟩ := exists_of_word? (w := "-->") (eq_true_of_ne_false hsome)
  have hr : c :: (y ++ '-' :: '-' :: '>' :: v) = '-' :: '-' :: '>' :: r := hr
  obtain ⟨rfl, hr'⟩ := List.cons.inj hr
  obtain ⟨q₁, q₂, rfl, -, rfl⟩ := exists_of_slots_eq dash_not_mem_placeholder h
  cases q₂ with
  | nil => exact absurd (List.cons.inj (List.cons.inj hr').2).1 (by decide)
  | cons z q₂ =>
    cases z with
    | piece u i => exact absurd (List.cons.inj hr').1 (by decide)
    | plain d =>
      obtain ⟨rfl, hmark⟩ := List.cons.inj hr'
      obtain ⟨q₃, rfl, -⟩ := exists_plain_cons (by decide) (by decide) hmark
      exact hq ⟨source q₁, source q₃, by simp⟩

/-- What a comment that stays begins with. -/
theorem isConditional_iff {s : List Char} : isConditional s = true ↔
    (∃ r, s = '[' :: 'i' :: 'f' :: r ∧ endsWord r = true) ∨ ∃ r, s = '<' :: '!' :: r := by
  constructor
  · intro h
    unfold isConditional at h
    split at h
    · rename_i k hk
      refine .inl ⟨k.rest, ?_, h⟩
      have := k.append_eq
      rw [Cut.text_of_word? hk] at this
      exact this.symm
    · exact .inr (exists_of_word? (w := "<!") h)
  · rintro (⟨r, rfl, hr⟩ | ⟨r, rfl⟩)
    · obtain ⟨k, hk, -, hrest⟩ := Cut.word?_gives (s := '[' :: 'i' :: 'f' :: r) (w := "[if") (v := r) rfl
      rw [isConditional, hk]
      show endsWord k.rest = true
      rw [hrest, hr]
    · obtain ⟨k, hk, -, -⟩ := Cut.word?_gives (s := '<' :: '!' :: r) (w := "<!") (v := r) rfl
      have hnone : Cut.word? "[if" ('<' :: '!' :: r) = none := Cut.wordBy?_neg (by decide) _ _
      rw [isConditional, hnone, hk]
      rfl

/-- Masking does not make a comment one that stays. -/
theorem isConditional_slots (hq : isConditional (source q) = false)
    (helements : ∀ u i, Segment.piece u i ∈ q → IsElement u) :
    isConditional (slots q ++ '-' :: v) = false := by
  by_contra hcond
  have hsource : isConditional (source q) ≠ true := by simp [hq]
  refine hsource (isConditional_iff.2 ?_)
  rcases isConditional_iff.1 (eq_true_of_ne_false hcond) with ⟨r, hr, hend⟩ | ⟨r, hr⟩
  · obtain ⟨q₁, rfl, h₁⟩ := exists_plain_cons (by decide) (by decide) hr
    obtain ⟨q₂, rfl, h₂⟩ := exists_plain_cons (by decide) (by decide) h₁
    obtain ⟨q, rfl, rfl⟩ := exists_plain_cons (by decide) (by decide) h₂
    refine .inl ⟨source q, rfl, ?_⟩
    cases q with
    | nil => rfl
    | cons x q =>
      cases x with
      | plain c => exact hend
      | piece u i =>
        obtain ⟨w, rfl⟩ := exists_concat_of_isElement (helements u i (by simp))
        rfl
  · cases q with
    | nil => exact absurd (List.cons.inj hr).1 (by decide)
    | cons x q =>
      cases x with
      | piece u i => exact absurd (List.cons.inj (List.cons.inj hr).2).1 (by decide)
      | plain c =>
        obtain ⟨rfl, hmark⟩ := List.cons.inj hr
        obtain ⟨q, rfl, -⟩ := exists_plain_cons (by decide) (by decide) hmark
        exact .inr ⟨source q, rfl⟩

end

/-- A comment goes as a whole when nothing before its end stops it. -/
theorem replaceAll_comment? {m v : List Char}
    (hcond : isConditional (m ++ '-' :: '-' :: '>' :: v) = false)
    (hm : ∀ x c y, m = x ++ c :: y →
      (Cut.word? "-->" (c :: y ++ '-' :: '-' :: '>' :: v)).isSome = false) :
    replaceAll comment? ('<' :: '!' :: '-' :: '-' :: (m ++ '-' :: '-' :: '>' :: v)) =
      replaceAll comment? v := by
  obtain ⟨k₁, h₁, t₁, r₁⟩ := Cut.word?_gives (w := "<!--") (v := m ++ '-' :: '-' :: '>' :: v)
    (s := '<' :: '!' :: '-' :: '-' :: (m ++ '-' :: '-' :: '>' :: v)) rfl
  obtain ⟨k₂, h₂, t₂, r₂⟩ := Cut.before?_gives (p := fun t => (Cut.word? "-->" t).isSome) r₁ hm
    (by obtain ⟨k, hk, -⟩ := Cut.word?_gives (s := '-' :: '-' :: '>' :: v) (w := "-->") (v := v) rfl
        rw [hk]
        rfl)
  obtain ⟨k₃, h₃, t₃, -⟩ := Cut.word?_gives (w := "-->") (v := v) r₂
  rw [← r₁] at hcond
  refine replaceAll_of_gives (a := []) (k := (k₁.andThen k₂).andThen k₃) (fun _ _ => rfl)
    (u := '<' :: '!' :: '-' :: '-' :: m ++ ['-', '-', '>']) (by simp) (by simp) ?_ ?_
  · simp only [comment?, h₁, h₂, h₃, hcond, Option.bind_eq_bind, Option.bind_some, Option.pure_def,
      Bool.false_eq_true, if_false]
  · show k₁.text ++ k₂.text ++ k₃.text = _
    rw [t₁, t₂, t₃]
    rfl

/-! ### Documents -/

theorem comment?_of_word? {s : List Char} (h : Cut.word? "<!--" s = none) : comment? none s = none :=
  Markup.takesComments_reduce.none s h

/-- The scan for comments goes over a tag that is none. -/
theorem passes_comment_tag {s : List Char} (hs : '<' ∉ s) (hopen : ¬ "!--".toList <+: s) :
    Passes comment? (tagText s) := by
  refine passes_cons (fun _ _ => rfl) (fun v => comment?_of_word? ?_)
    (passes_text (fun _ _ => rfl) Markup.takesComments_reduce.atMark (by simp [hs]))
  by_contra hne
  obtain ⟨r, hr⟩ := exists_of_word? (w := "<!--") (Option.isSome_iff_ne_none.2 hne)
  have hr : ['!', '-', '-'] ++ r = s ++ '>' :: v := by simpa using hr.symm
  obtain ⟨z, rfl, -⟩ := exists_of_append_eq (by decide) hr
  exact hopen ⟨z, rfl⟩

theorem passes_comment_placeholder (i : Nat) : Passes comment? (placeholder i) :=
  Markup.takesComments_reduce.passes (.inl (by decide)) (mark_not_mem_tail i)

/-- Taking comments out of the masked text leaves the masked text without them. -/
theorem exists_uncommented {d : List Item} (hd : ∀ x ∈ d, x.WellFormed) (i : Nat) :
    ∃ q, replaceAll comment? (slots (number i (d.flatMap Item.segments))) = slots q ∧
      source q = text (uncommented d) ∧ ∀ x ∈ q, x ∈ number i (d.flatMap Item.segments) := by
  induction d generalizing i with
  | nil => exact ⟨[], replaceAll_nil _, rfl, by simp⟩
  | cons x d ih =>
    have hx := hd x (by simp)
    have ih := ih fun y hy => hd y (List.mem_cons_of_mem _ hy)
    rw [List.flatMap_cons]
    -- What is not recognised stays as it is.
    have plain : ∀ s : List Char, x.segments = s.map .plain → x.chars = s → x.isComment = false →
        Passes comment? s → ∃ q, replaceAll comment? (slots (number i
          (x.segments ++ d.flatMap Item.segments))) = slots q ∧
          source q = text (uncommented (x :: d)) ∧
          ∀ y ∈ q, y ∈ number i (x.segments ++ d.flatMap Item.segments) := by
      intro s hsegments hchars hkept hpasses
      obtain ⟨q, hq, hsource, hmem⟩ := ih i
      have hkeep : uncommented (x :: d) = x :: uncommented d := List.filter_cons_of_pos (by simp [hkept])
      rw [hsegments, number_map_plain_append]
      refine ⟨s.map .plain ++ q, ?_, ?_, ?_⟩
      · rw [slots_append, slots_append, slots_map_plain, hpasses.replaceAll, hq]
      · rw [source_append, source_map_plain, hsource, hkeep, text_cons, hchars]
      · intro y hy
        rcases List.mem_append.1 hy with hy | hy
        · exact List.mem_append_left _ hy
        · exact List.mem_append_right _ (hmem y hy)
    cases x with
    | text s =>
      exact plain s rfl rfl rfl (passes_text (fun _ _ => rfl) Markup.takesComments_reduce.atMark hx)
    | tag s => exact plain _ rfl rfl rfl (passes_comment_tag hx.1 hx.2.2.1)
    | comment b =>
      obtain ⟨j, hj⟩ := exists_number_append i (Item.comment b).segments
      obtain ⟨q, hq, hsource, hmem⟩ := ih j
      refine ⟨q, ?_, hsource, fun y hy => by rw [hj]; exact List.mem_append_right _ (hmem y hy)⟩
      obtain ⟨hscanned, hpieces⟩ := scanned_segments b
      obtain ⟨k, hk⟩ := exists_number_append i (Text.segments shielded? b)
      have hbody : source (number i (Text.segments shielded? b)) = b := by
        rw [source_number]
        exact source_segments shielded? b
      have helements : ∀ u j, Segment.piece u j ∈ number i (Text.segments shielded? b) → IsElement u := by
        intro u j hu
        obtain ⟨a, ha⟩ := mem_number hu
        exact hpieces u a ha
      have hmasked : slots (number i (Item.comment b).segments) = '<' :: '!' :: '-' :: '-' ::
          (slots (number i (Text.segments shielded? b)) ++ ['-', '-', '>']) := by
        rw [Item.segments, number_map_plain_append, hk, number_map_plain]
        simp
      rw [hj, slots_append, hmasked]
      simp only [List.cons_append, List.append_assoc, List.nil_append]
      rw [replaceAll_comment? (isConditional_slots (by rw [hbody]; exact hx.2) helements)
        (fun y c z h => word?_slots (by rw [hbody]; exact hx.1) h), hq]
    | element u =>
      obtain ⟨q, hq, hsource, hmem⟩ := ih (i + 1)
      refine ⟨.piece u i :: q, ?_, ?_, ?_⟩
      · show replaceAll comment? (placeholder i ++ slots (number (i + 1) (d.flatMap Item.segments))) =
          placeholder i ++ slots q
        rw [(passes_comment_placeholder i).replaceAll, hq]
      · rw [source_piece, hsource]
        rfl
      · intro y hy
        rcases List.mem_cons.1 hy with rfl | hy
        · exact List.mem_cons_self ..
        · exact List.mem_cons_of_mem _ (hmem y hy)

/-- Removing comments removes exactly the comments, where no shielded element begins in one and ends
behind it. -/
theorem stripComments_text {d : List Item} (hd : ∀ x ∈ d, x.WellFormed) (hn : '\x00' ∉ text d)
    (hc : CommentsApart d) : stripComments (text d) = text (uncommented d) := by
  have hparts : parts (text d) = d.flatMap Item.segments := by
    rw [parts, Markup.dropNul_of_not_mem hn, segments_text hd hc]
  obtain ⟨q, hq, hsource, hmem⟩ := exists_uncommented hd 0
  rw [← hparts] at hq hmem
  rw [← hsource]
  exact around_eq hq fun x hx => .inl (hmem x hx)

/-- A document with a comment that holds a shielded element, and an element that holds a comment. -/
def sampleItems : List Item :=
  [.comment " a <pre>x</pre> ".toList, .tag "p".toList, .text "1 -> 2".toList, .comment "[iffy--".toList,
    .element "<PRE> <!-- b --> </Pre>".toList, .tag "/p".toList]

/-- In the sample the element in a comment goes with it, and the comment in an element stays. -/
theorem stripComments_sampleItems :
    (∀ x ∈ sampleItems, x.WellFormed) ∧ '\x00' ∉ text sampleItems ∧ CommentsApart sampleItems ∧
      stripComments "<!-- a <pre>x</pre> --><p>1 -> 2<!--[iffy----><PRE> <!-- b --> </Pre></p>".toList =
        "<p>1 -> 2<PRE> <!-- b --> </Pre></p>".toList := by
  have htag : ∀ s ∈ ["p".toList, "/p".toList], (Item.tag s).WellFormed := by
    intro s hs
    have hnone : ∀ s ∈ ["p".toList, "/p".toList], ∀ name ∈ names,
        (tagStart? name (tagText s)).isNone = true := by decide
    have hchars : ∀ s ∈ ["p".toList, "/p".toList], '<' ∉ s ∧ '>' ∉ s ∧ ¬ "!--".toList <+: s := by decide
    obtain ⟨h₁, h₂, h₃⟩ := hchars s hs
    exact ⟨h₁, h₂, h₃, fun name hname => Option.isNone_iff_eq_none.1 (hnone s hs name hname)⟩
  have hcomment : ∀ b ∈ [" a <pre>x</pre> ".toList, "[iffy--".toList], (Item.comment b).WellFormed := by
    intro b hb
    have hends : ∀ b ∈ [" a <pre>x</pre> ".toList, "[iffy--".toList],
        containsText "-->" b = false ∧ isConditional b = false := by decide
    obtain ⟨h₁, h₂⟩ := hends b hb
    exact ⟨fun h => absurd (containsText_iff.2 h) (by simp [h₁]), h₂⟩
  have helement : segments shielded? "<PRE> <!-- b --> </Pre>".toList =
      [.piece "<PRE> <!-- b --> </Pre>".toList ()] := by cbv
  have hitems : ∀ x ∈ sampleItems, x.WellFormed := by
    simp only [sampleItems, List.forall_mem_cons]
    refine ⟨hcomment _ (by simp), htag _ (by simp), (by decide : '<' ∉ "1 -> 2".toList),
      hcomment _ (by simp), ?_, htag _ (by simp), by simp⟩
    exact (scanned_segments _).2 _ () (by rw [helement]; simp)
  have hnul : '\x00' ∉ text sampleItems := by decide
  have happly : ∀ u v, segments shielded? (u ++ v) = segments shielded? u ++ segments shielded? v →
      Apart u v := fun u v h => ⟨_, _, h, source_segments shielded? u⟩
  have hapart : CommentsApart sampleItems :=
    ⟨happly _ _ (by cbv), happly _ _ (by cbv), trivial⟩
  have htext : "<!-- a <pre>x</pre> --><p>1 -> 2<!--[iffy----><PRE> <!-- b --> </Pre></p>".toList =
      text sampleItems := by decide
  have hrest : "<p>1 -> 2<PRE> <!-- b --> </Pre></p>".toList = text (uncommented sampleItems) := by decide
  have hstrip := stripComments_text hitems hnul hapart
  rw [← htext, ← hrest] at hstrip
  exact ⟨hitems, hnul, hapart, hstrip⟩

/-! ### Texts without comments -/

variable {P : List Char → Prop} {p : List (Segment Unit)}

theorem passes_comment_slots (hp : Tagged (fun s => ¬ "!--".toList <+: s) p) (i : Nat) :
    Passes comment? (slots (number i p)) := by
  induction hp generalizing i with
  | nil => exact passes_nil
  | char hc _ ih => exact passes_cons (fun _ _ => rfl) (fun v => Markup.takesComments_reduce.atMark _ _ hc) (ih i)
  | @tag s p h₁ _ hopen _ ih =>
    rw [number_map_plain_append, slots_append, slots_map_plain]
    exact (passes_comment_tag h₁ hopen).append (ih i)
  | element _ ih => exact (passes_comment_placeholder i).append (ih (i + 1))

/-- Where no comment begins, none is removed. -/
theorem stripComments_eq_self (hp : Outline P p) (h : ¬ "<!--".toList <:+: source p) :
    stripComments (source p) = source p := by
  have hopen : Tagged (fun s => ¬ "!--".toList <+: s) p := hp.tagged.imp fun s hs _ hprefix => by
    obtain ⟨t, rfl⟩ := hprefix
    exact h (List.IsInfix.trans ⟨[], t ++ ['>'], by simp [tagText]⟩ hs)
  refine hp.around_eq ?_ rfl hp.nul
  simpa using (passes_comment_slots hopen 0).replaceAll []

end PagePress.Html.Shield
