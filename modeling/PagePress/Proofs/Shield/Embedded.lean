import Mathlib.Data.List.Infix
import PagePress.Proofs.Script
import PagePress.Proofs.Shield.Outline
import PagePress.Proofs.Stylesheet
import PagePress.Reduce.Embedded

/-!
Stylesheets and scripts among shielded elements. The two passes that compact them do not set the
elements aside: they take whatever looks like an element of their name, also within another one. They
keep to the elements of their name where no other element spells its start tag, and where what they
write spells no end tag of it (`Confined`).
-/

namespace PagePress.Html

open Text

/-! ### Tags that do not occur -/

/-- No tag of the name starts in a text. -/
def Startless (name : String) (s : List Char) : Prop := ∀ t, t <:+ s → tagStart? name t = none

/-- No closing tag of the name stands in a text. -/
def Closeless (name : String) (s : List Char) : Prop :=
  ∀ t, t <:+ s → closeTag? sameLetter name.toList t = none

instance (name : String) (s : List Char) : Decidable (Startless name s) :=
  decidable_of_iff (∀ t ∈ s.tails, (tagStart? name t).isNone = true) (by simp [Startless])

instance (name : String) (s : List Char) : Decidable (Closeless name s) :=
  decidable_of_iff (∀ t ∈ s.tails, (closeTag? sameLetter name.toList t).isNone = true)
    (by simp [Closeless])

theorem Startless.of_suffix {name : String} {s t : List Char} (h : Startless name t) (hs : s <:+ t) :
    Startless name s := fun u hu => h u (hu.trans hs)

theorem startless_of_not_mem {name : String} {s : List Char} (hs : '<' ∉ s) : Startless name s := by
  intro t ht
  cases t with
  | nil => rfl
  | cons c t =>
    refine Markup.tagStart?_of_ne_mark name ?_ t
    rintro rfl
    exact hs (ht.mem (by simp))

theorem closeless_of_not_mem {name : String} {s : List Char} (hs : '<' ∉ s) : Closeless name s := by
  intro t ht
  cases t with
  | nil => rfl
  | cons c t =>
    refine Markup.closeTag?_of_ne_mark _ _ ?_ t
    rintro rfl
    exact hs (ht.mem (by simp))

/-- A scan for tags of a name goes over a text in which none starts, up to the end of a tag. -/
theorem passes_startless {α : Type} {name : String} {r : Recognizer α} (hname : IsTagName name)
    (hr : Markup.OpensWith [name] r) {s : List Char} (hs : Startless name (s ++ ['>'])) :
    Passes r (s ++ ['>']) := by
  induction s with
  | nil => exact passes_text hr.contextFree hr.atMark (by decide)
  | cons c s ih =>
    refine passes_cons hr.contextFree (fun v => ?_) (ih (hs.of_suffix (List.suffix_cons ..)))
    refine hr.none _ fun m hm => ?_
    obtain rfl := List.mem_singleton.1 hm
    have hstart : tagStart? m (c :: (s ++ ['>']) ++ v) = none := by
      by_contra hne
      rw [← List.cons_append, List.append_assoc] at hne
      have := isSome_tagStart?_of_append hname (Option.isSome_iff_ne_none.2 hne)
      rw [hs (c :: s ++ ['>']) List.suffix_rfl] at this
      cases this
    show openTag? m (c :: (s ++ ['>']) ++ v) = none
    rw [openTag?, hstart]
    rfl

/-! ### Closing tags -/

theorem sameLetter_of_same {a c d : Char} (h : sameLetter a c = true) (hcd : sameCaseless c d = true) :
    sameLetter a d = true := by
  have hcd : caseless c = caseless d := by simpa [sameCaseless] using hcd
  simp only [sameLetter, Bool.or_eq_true, Bool.and_eq_true, beq_iff_eq] at h ⊢
  rcases h with (h | ⟨ha, rfl⟩) | ⟨ha, rfl⟩
  · exact .inl (.inl (hcd ▸ h))
  · exact .inl (.inr ⟨ha, eq_of_caseless (by decide) (hcd.symm.trans (by decide))⟩)
  · exact .inr ⟨ha, eq_of_caseless (by decide) (hcd.symm.trans (by decide))⟩

theorem forall₂_sameLetter {as cs ds : List Char} (h : List.Forall₂ (fun a c => sameLetter a c = true) as cs)
    (hcd : List.Forall₂ (fun c d => sameCaseless c d = true) cs ds) :
    List.Forall₂ (fun a d => sameLetter a d = true) as ds := by
  induction h generalizing ds with
  | nil =>
    cases hcd
    exact .nil
  | cons hac _ ih =>
    cases hcd with
    | cons hcd hrest => exact .cons (sameLetter_of_same hac hcd) (ih hrest)

/-- What repeats the name of a tag has the name that the tag has. -/
theorem isSome_closeTag?_of_repeating {name : String} {word s : List Char}
    (hw : List.Forall₂ (fun a c => sameLetter a c = true) name.toList word)
    (h : (closeTag? sameCaseless word s).isSome = true) :
    (closeTag? sameLetter name.toList s).isSome = true := by
  obtain ⟨w, space, v, hs, hspace, hsame⟩ := isSome_closeTag?.1 h
  exact isSome_closeTag?.2 ⟨w, space, v, hs, hspace, forall₂_sameLetter hw hsame⟩

/-- A closing tag does not begin in front of another one. -/
theorem Closeless.append_closing {name : String} (hname : IsTagName name) {s y w space : List Char}
    (h : Closeless name s) (hy : y <:+ s) (hne : y ≠ []) :
    closeTag? sameLetter name.toList (y ++ closingTag w space) = none := by
  by_contra hsome
  obtain ⟨w', space', v, hcut, hspace, hw⟩ := isSome_closeTag?.1 (Option.isSome_iff_ne_none.2 hsome)
  obtain ⟨c, y, rfl⟩ := List.exists_cons_of_ne_nil hne
  obtain ⟨rfl, htail⟩ := List.cons.inj hcut
  have hmark : '<' ∉ '/' :: (w' ++ (space' ++ ['>'])) := by
    have hletters : '<' ∉ w' := fun hm => (nameLetter_of_forall₂ hname hw _ hm).ne (by decide) rfl
    have hblanks : '<' ∉ space' := fun hm => absurd (hspace _ hm) (by decide)
    simp [hletters, hblanks]
  obtain ⟨z, rfl, -⟩ := exists_of_append_eq hmark htail.symm
  have hnone : closeTag? sameLetter name.toList (closingTag w' space' ++ z) = none := h _ hy
  have hfound := isSome_closeTag?.2 ⟨w', space', z, rfl, hspace, hw⟩
  rw [hnone] at hfound
  cases hfound

/-- Two tags of a name, around a text in which no closing tag of the name stands, spell an element. -/
theorem spells_of_closeless {name : String} (hname : IsTagName name) (r : RawElement)
    (opens : List.Forall₂ (fun a c => sameLetter a c = true) name.toList r.word)
    (attrs : '>' ∉ r.attrs) (hend : endsWord (r.attrs ++ ['>']) = true)
    (closes : List.Forall₂ (fun a c => sameCaseless a c = true) r.word r.closingWord)
    (space : ∀ c ∈ r.space, isBlank c = true) (hbody : Closeless name r.body) :
    r.Spells sameCaseless name r.word where
  opens := opens
  attrs := attrs
  endsWord := hend
  closes := closes
  space := space
  body x y hxy hy := by
    by_contra hsome
    have := isSome_closeTag?_of_repeating opens (Option.isSome_iff_ne_none.2 hsome)
    rw [RawElement.closing, hbody.append_closing hname ⟨x, hxy.symm⟩ hy] at this
    cases this

namespace RawElement.Spells

variable {name : String} {r : RawElement}

/-- An element is taken whole by a pattern for its name, if no closing tag of the name stands in
it. -/
theorem sameLetter (h : r.Spells sameCaseless name r.word) (hname : IsTagName name)
    (hbody : Closeless name r.body) : r.Spells Text.sameLetter name name.toList where
  opens := h.opens
  attrs := h.attrs
  endsWord := h.endsWord
  closes := forall₂_sameLetter h.opens h.closes
  space := h.space
  body _ _ hxy hy := hbody.append_closing hname ⟨_, hxy.symm⟩ hy

/-- The content of an element may become any text in which no closing tag of its name stands. -/
theorem withBody (h : r.Spells sameCaseless name r.word) (hname : IsTagName name) {b : List Char}
    (hb : Closeless name b) : { r with body := b }.Spells sameCaseless name r.word :=
  spells_of_closeless hname { r with body := b } h.opens h.attrs h.endsWord h.closes h.space hb

end RawElement.Spells

/-! ### Scans that refill elements -/

/-- Recognises an element of a name and changes what it holds; the change may look at the opening
tag. -/
def refilled (name : String) (fill : List Char → List Char → List Char) : Recognizer (List Char) :=
  fun _ s => (element? name s).map fun e =>
    (e.opening.text ++ fill e.opening.text e.body.text ++ e.closing.text, e.cut)

section

variable {name : String} {fill : List Char → List Char → List Char}

theorem opensWith_refilled (hname : Markup.isName name.toList = true) :
    Markup.OpensWith [name] (refilled name fill) where
  contextFree _ _ := rfl
  names := by simpa using hname
  none s h := by simp [refilled, element?, h]

theorem takes_refilled (hname : IsTagName name) {r : RawElement}
    (h : r.Spells sameLetter name name.toList) :
    Takes (refilled name fill) r.text (r.opening ++ fill r.opening r.body ++ r.closing) := by
  refine takes_of_eq (fun _ _ => rfl) (by simp [RawElement.text, RawElement.opening, openingTag]) fun v => ?_
  obtain ⟨e, he, hparts⟩ := exists_element? hname h (v := v) rfl
  refine ⟨e.cut, ?_, hparts.cut_text⟩
  rw [refilled, he, Option.map_some, hparts.opening, hparts.body, hparts.closing]

end

end PagePress.Html

namespace PagePress.Html.Shield

open Text Reduce

/-! ### Elements -/

section

variable {name : String} {fill : List Char → List Char → List Char}

/-- A scan that refills the elements of a name keeps to an element: it is none of them and none
starts in it, or it is one of them, and no closing tag stands in what it held or in what it holds
then. -/
inductive Confined (name : String) (fill : List Char → List Char → List Char) (u : List Char) : Prop where
  | other : Startless name u → Confined name fill u
  | own (r : RawElement) : r.Spells sameCaseless name r.word → u = r.text → Closeless name r.body →
      Closeless name (fill r.opening r.body) → Confined name fill u

theorem isName_of_mem (hname : name ∈ names) : Markup.isName name.toList = true := by
  have : ∀ n ∈ names, Markup.isName n.toList = true := by decide
  exact this name hname

/-- What a scan makes of an element that it keeps to, whatever follows: the element stays or is
refilled. -/
theorem Confined.cases (hname : name ∈ names) {u : List Char} (hu : IsElement u)
    (h : Confined name fill u) :
    (replaceAll (refilled name fill) u = u ∨
      ∃ r : RawElement, r.Spells sameCaseless name r.word ∧ u = r.text ∧
        { r with body := fill r.opening r.body }.Spells sameCaseless name r.word ∧
        replaceAll (refilled name fill) u = { r with body := fill r.opening r.body }.text) ∧
      ∀ v, replaceAll (refilled name fill) (u ++ v) =
        replaceAll (refilled name fill) u ++ replaceAll (refilled name fill) v := by
  have hletters := isTagName_of_mem hname
  cases h with
  | other h =>
    obtain ⟨w, rfl⟩ := exists_concat_of_isElement hu
    have hpass : Passes (refilled name fill) (tagText w) :=
      passes_startless (s := '<' :: w) hletters (opensWith_refilled (isName_of_mem hname)) h
    have hstay : replaceAll (refilled name fill) (tagText w) = tagText w := by
      simpa using hpass.replaceAll []
    exact ⟨.inl hstay, fun v => by rw [hpass.replaceAll, hstay]⟩
  | own r hr htext hbody hfill =>
    subst htext
    have htake : Takes (refilled name fill) r.text { r with body := fill r.opening r.body }.text :=
      takes_refilled hletters (hr.sameLetter hletters hbody)
    have hgo : replaceAll (refilled name fill) r.text = { r with body := fill r.opening r.body }.text := by
      simpa using htake.replaceAll []
    exact ⟨.inr ⟨r, hr, rfl, hr.withBody hletters hfill, hgo⟩, fun v => by rw [htake.replaceAll, hgo]⟩

theorem Confined.isElement (hname : name ∈ names) {u : List Char} (hu : IsElement u)
    (h : Confined name fill u) : IsElement (replaceAll (refilled name fill) u) := by
  rcases (h.cases hname hu).1 with hstay | ⟨r, -, -, hr, hgo⟩
  · rwa [hstay]
  · rw [hgo]
    exact ⟨name, hname, _, hr, rfl⟩

/-- An element begins with the tag of its name and of no other. -/
theorem tagStart?_text_of_ne {m : String} (hname : name ∈ names) (hm : m ∈ names) (hne : m ≠ name)
    {r : RawElement} {same : Char → Char → Bool} {word : List Char} (hr : r.Spells same name word) :
    tagStart? m r.text = none := by
  cases h : tagStart? m r.text with
  | none => rfl
  | some k =>
    obtain ⟨w, htext, hw, -⟩ := tagStart?_some h
    have hcut := k.append_eq
    rw [htext] at hcut
    refine absurd (name_unique hname hm hr.opens hw (x := r.attrs ++ '>' :: (r.body ++ r.closing))
      (y := k.rest) ?_) hne
    have htail := congrArg List.tail hcut
    simpa [RawElement.text, RawElement.opening, openingTag] using htail.symm

/-- An element is one of those whose text is shown as it stands. -/
def isPreformatted (u : List Char) : Bool :=
  ["pre", "textarea"].any fun name => (tagStart? name u).isSome

/-- A scan that refills other elements leaves preformatted elements alone, and makes no new ones. -/
theorem Confined.isPreformatted (hname : name ∈ ["script", "style"]) {u : List Char} (hu : IsElement u)
    (h : Confined name fill u) :
    isPreformatted (replaceAll (refilled name fill) u) = isPreformatted u ∧
      (isPreformatted u = true → replaceAll (refilled name fill) u = u) := by
  have hmem : ∀ n ∈ ["script", "style"], n ∈ names ∧ ∀ m ∈ ["pre", "textarea"], m ∈ names ∧ m ≠ n := by
    decide
  obtain ⟨hname, hother⟩ := hmem name hname
  have hnot : ∀ {r : RawElement}, r.Spells sameCaseless name r.word → Shield.isPreformatted r.text = false := by
    intro r hr
    rw [Shield.isPreformatted, List.any_eq_false]
    intro m hm
    rw [tagStart?_text_of_ne hname (hother m hm).1 (hother m hm).2 hr]
    exact Bool.false_ne_true
  rcases (h.cases hname hu).1 with hstay | ⟨r, hr, rfl, hr', hgo⟩
  · rw [hstay]
    exact ⟨rfl, fun _ => rfl⟩
  · rw [hgo, hnot hr', hnot hr]
    exact ⟨rfl, fun h => by cases h⟩

end

/-! ### Documents -/

section

variable {P : List Char → Prop} {p : List (Segment Unit)} {name : String}
  {fill : List Char → List Char → List Char}

theorem startless_tagText {s : List Char} (hname : name ∈ names) (hs : '<' ∉ s) (h : Unshielded s) :
    Startless name (tagText s) := by
  intro t ht
  rcases List.suffix_cons_iff.1 ht with rfl | ht
  · exact h name hname
  · exact startless_of_not_mem (s := s ++ ['>']) (by simp [hs]) t ht

/-- A scan that refills the elements of a name, and keeps to each element of a text, refills them one
by one. -/
theorem exists_refilled (hname : name ∈ names) (hp : Tagged (fun s => Unshielded s ∧ P s) p)
    (hu : ∀ u ∈ saved p, IsElement u) (hc : ∀ u ∈ saved p, Confined name fill u) :
    ∃ p', replaceAll (refilled name fill) (source p) = source p' ∧
      Tagged (fun s => Unshielded s ∧ P s) p' ∧ (∀ u ∈ saved p', IsElement u) ∧
      saved p' = (saved p).map (replaceAll (refilled name fill)) := by
  have hr : Markup.OpensWith [name] (refilled name fill) := opensWith_refilled (isName_of_mem hname)
  induction hp with
  | nil => exact ⟨[], replaceAll_nil _, .nil, by simp [saved], rfl⟩
  | @char c p hchar _ ih =>
    obtain ⟨p', hsource, htagged, helements, hsaved⟩ := ih hu hc
    refine ⟨.plain c :: p', ?_, .char hchar htagged, helements, hsaved⟩
    rw [source_plain, replaceAll_of_none hr.contextFree (hr.atMark c _ hchar), hsource, source_plain]
  | @tag s p h₁ h₂ hP _ ih =>
    rw [saved_map_plain_append] at hu hc
    obtain ⟨p', hsource, htagged, helements, hsaved⟩ := ih hu hc
    have hpass : Passes (refilled name fill) (tagText s) :=
      passes_startless (s := '<' :: s) (isTagName_of_mem hname) hr (startless_tagText hname h₁ hP.1)
    refine ⟨(tagText s).map .plain ++ p', ?_, .tag h₁ h₂ hP htagged, ?_, ?_⟩
    · rw [source_append, source_map_plain, hpass.replaceAll, hsource, source_append, source_map_plain]
    · rwa [saved_map_plain_append]
    · rw [saved_map_plain_append, saved_map_plain_append, hsaved]
  | @element u p _ ih =>
    have hmem : ∀ {v}, v ∈ saved p → v ∈ saved (.piece u () :: p) := List.mem_cons_of_mem _
    obtain ⟨p', hsource, htagged, helements, hsaved⟩ := ih (fun v hv => hu v (hmem hv)) fun v hv => hc v (hmem hv)
    have hin : u ∈ saved (.piece u () :: p) := List.mem_cons_self ..
    refine ⟨.piece (replaceAll (refilled name fill) u) () :: p', ?_, .element htagged, ?_, ?_⟩
    · rw [source_piece, ((hc u hin).cases hname (hu u hin)).2, hsource, source_piece]
    · exact List.forall_mem_cons.2 ⟨(hc u hin).isElement hname (hu u hin), helements⟩
    · exact congrArg (_ :: ·) hsaved

/-- Refilling brings no NUL into a text. -/
theorem nul_not_mem_refilled (hfill : ∀ o b, ∀ c ∈ fill o b, c ∈ b ∨ c ≠ '\x00') {s : List Char}
    (hs : '\x00' ∉ s) : '\x00' ∉ replaceAll (refilled name fill) s := by
  have hmem : ∀ b t a (k : Cut t), refilled name fill b t = some (a, k) → ∀ c ∈ a, c ∈ t ∨ c ≠ '\x00' := by
    intro b t a k h c hc
    obtain ⟨e, -, heq⟩ := Option.map_eq_some_iff.1 h
    obtain ⟨rfl, -⟩ := Prod.mk.inj heq
    simp only [List.mem_append] at hc
    rcases hc with (hc | hc) | hc
    · exact .inl (e.opening.mem_of_mem_text hc)
    · exact (hfill _ _ c hc).imp_left fun hc => e.opening.mem_of_mem_rest (e.body.mem_of_mem_text hc)
    · exact .inl (e.opening.mem_of_mem_rest (e.body.mem_of_mem_rest (e.closing.mem_of_mem_text hc)))
  exact fun hm => (mem_replaceAll hmem hm).elim hs fun h => h rfl

theorem filter_map_of_fixed {α : Type} {f : α → Bool} {g : α → α} {l : List α}
    (h : ∀ a ∈ l, f (g a) = f a ∧ (f a = true → g a = a)) : (l.map g).filter f = l.filter f := by
  induction l with
  | nil => rfl
  | cons a l ih =>
    obtain ⟨hf, hg⟩ := h a (by simp)
    have ih := ih fun b hb => h b (by simp [hb])
    rw [List.map_cons, List.filter_cons, List.filter_cons, ih, hf]
    split
    · rw [hg ‹_›]
    · rfl

theorem Outline.exists_refilled (hname : name ∈ ["script", "style"])
    (hfill : ∀ o b, ∀ c ∈ fill o b, c ∈ b ∨ c ≠ '\x00') (hp : Outline P p)
    (hc : ∀ u ∈ saved p, Confined name fill u) :
    ∃ p', replaceAll (refilled name fill) (source p) = source p' ∧ Outline P p' ∧
      saved p' = (saved p).map (replaceAll (refilled name fill)) ∧
      (saved p').filter isPreformatted = (saved p).filter isPreformatted := by
  have hmem : ∀ n ∈ ["script", "style"], n ∈ names := by decide
  obtain ⟨p', hsource, htagged, helements, hsaved⟩ :=
    Shield.exists_refilled (hmem name hname) hp.tagged hp.elements hc
  refine ⟨p', hsource, ⟨htagged, helements, ?_⟩, hsaved, ?_⟩
  · rw [← hsource]
    exact nul_not_mem_refilled hfill hp.nul
  · rw [hsaved]
    exact filter_map_of_fixed fun u hu => (hc u hu).isPreformatted hname (hp.elements u hu)

end

/-- What a style element holds when it is compacted. -/
def styleFill (_ : List Char) : List Char → List Char := Stylesheet.compact

/-- What a script element holds when it is compacted: one that names a file stays. -/
def scriptFill (opening body : List Char) : List Char :=
  if namesFile (tagBody "script" opening) then body else Script.compact body

theorem scriptElement?_eq : scriptElement? = refilled "script" scriptFill := by
  funext b s
  rw [scriptElement?, refilled]
  refine congrArg (Option.map · (element? "script" s)) (funext fun e => ?_)
  unfold scriptFill
  split <;> rfl

theorem mem_styleFill (o b : List Char) : ∀ c ∈ styleFill o b, c ∈ b ∨ c ≠ '\x00' := by
  intro c hc
  refine (Stylesheet.mem_compact hc).imp_right fun h => ?_
  rcases h with rfl | rfl | rfl <;> decide

theorem mem_scriptFill (o b : List Char) : ∀ c ∈ scriptFill o b, c ∈ b ∨ c ≠ '\x00' := by
  intro c hc
  unfold scriptFill at hc
  split at hc
  · exact .inl hc
  · refine (Script.mem_compact hc).imp_right fun h => ?_
    rcases h with rfl | rfl <;> decide

section

variable {P : List Char → Prop} {p : List (Segment Unit)}

/-- Compacting the stylesheets of a text compacts its elements one by one, and leaves the preformatted
ones as they are. -/
theorem exists_compactStyles (hp : Outline P p) (hc : ∀ u ∈ saved p, Confined "style" styleFill u) :
    ∃ p', compactStyles (source p) = source p' ∧ Outline P p' ∧
      saved p' = (saved p).map compactStyles ∧
      (saved p').filter isPreformatted = (saved p).filter isPreformatted :=
  hp.exists_refilled (by decide) mem_styleFill hc

/-- Compacting the scripts of a text leaves its preformatted elements as they are. -/
theorem exists_compactScripts (hp : Outline P p) (hc : ∀ u ∈ saved p, Confined "script" scriptFill u) :
    ∃ p', compactScripts (source p) = source p' ∧ Outline P p' ∧
      (saved p').filter isPreformatted = (saved p).filter isPreformatted := by
  obtain ⟨p', hsource, hp', -, hfilter⟩ := hp.exists_refilled (by decide) mem_scriptFill hc
  exact ⟨p', by rw [compactScripts, scriptElement?_eq, hsource], hp', hfilter⟩

end

end PagePress.Html.Shield
