import Mathlib.Data.List.Infix
import PagePress.Proofs.Embed
import PagePress.Proofs.Stylesheet
import PagePress.Stylesheet.Page

/-!
The stylesheet of a page, as far as its fixed texts decide. A property of texts that goes from the
texts of the rules to the layout around them (`Law`) holds of the stylesheet of a page as soon as
the colours of its theme may be values of declarations (`Law.page`). So a word with a mark that the fixed
texts are written without stands in the stylesheet only if it stands in a colour (`infix_of_pageText`);
in particular the stylesheet holds no `<` when the colours hold none (`not_mem_pageText`).
-/

namespace PagePress.Stylesheet

open Text

/-- The texts that a rule is written with. -/
def Rule.strings (r : Rule) : List String :=
  r.selectors ++ r.declarations.flatMap fun d => [d.1, d.2]

/-- The texts that an item is written with. -/
def Item.strings : Item → List String
  | style rule => rule.strings
  | media condition rules => condition :: rules.flatMap Rule.strings
  | keyframes name frames => name :: frames.flatMap Rule.strings

/-- A text of the characters that satisfy `q`. -/
def MadeOf (q : Char → Bool) (s : List Char) : Prop := ∀ c ∈ s, q c = true

instance (q : Char → Bool) : DecidablePred (MadeOf q) := fun s =>
  inferInstanceAs (Decidable (∀ c ∈ s, q c = true))

theorem MadeOf.append {q : Char → Bool} {s t : List Char} (hs : MadeOf q s) (ht : MadeOf q t) :
    MadeOf q (s ++ t) := fun c hc => (List.mem_append.1 hc).elim (hs c) (ht c)

theorem MadeOf.mono {q r : Char → Bool} (h : ∀ c, q c = true → r c = true) {s : List Char}
    (hs : MadeOf q s) : MadeOf r s := fun c hc => h c (hs c hc)

/-- The texts of a rule are made of the characters `q`, but for the values of its declarations, which
satisfy `V`. -/
structure Rule.Obeys (q : Char → Bool) (V : List Char → Prop) (r : Rule) : Prop where
  selectors : ∀ s ∈ r.selectors, MadeOf q s.toList
  declarations : ∀ d ∈ r.declarations, MadeOf q d.1.toList ∧ V d.2.toList

/-- So are the texts of an item. -/
def Item.Obeys (q : Char → Bool) (V : List Char → Prop) : Item → Prop
  | style rule => rule.Obeys q V
  | media condition rules => MadeOf q condition.toList ∧ ∀ r ∈ rules, r.Obeys q V
  | keyframes name frames => MadeOf q name.toList ∧ ∀ r ∈ frames, r.Obeys q V

section

variable {q : Char → Bool} {V : List Char → Prop} (hV : ∀ {v}, MadeOf q v → V v)
include hV

theorem Rule.obeys_of_strings {r : Rule} (hr : ∀ s ∈ r.strings, MadeOf q s.toList) : r.Obeys q V where
  selectors s hs := hr s (List.mem_append_left _ hs)
  declarations d hd := by
    have hstrings : ∀ s ∈ [d.1, d.2], MadeOf q s.toList := fun s hs =>
      hr s (List.mem_append_right _ (List.mem_flatMap.2 ⟨d, hd, hs⟩))
    exact ⟨hstrings d.1 (by simp), hV (hstrings d.2 (by simp))⟩

theorem Item.obeys_of_strings {i : Item} (hi : ∀ s ∈ i.strings, MadeOf q s.toList) : i.Obeys q V := by
  have hrules : ∀ {rules : List Rule}, (∀ s ∈ rules.flatMap Rule.strings, MadeOf q s.toList) →
      ∀ r ∈ rules, r.Obeys q V := fun h r hr =>
    Rule.obeys_of_strings hV fun s hs => h s (List.mem_flatMap.2 ⟨r, hr, hs⟩)
  cases i with
  | style r => exact Rule.obeys_of_strings hV hi
  | media condition rules =>
    obtain ⟨hc, hr⟩ := List.forall_mem_cons.1 hi
    exact ⟨hc, hrules hr⟩
  | keyframes name frames =>
    obtain ⟨hn, hf⟩ := List.forall_mem_cons.1 hi
    exact ⟨hn, hrules hf⟩

end

/-- A property of texts that a sheet has when its texts are made of the characters `q` and the values of
its declarations satisfy `V`. -/
structure Law (q : Char → Bool) (V P : List Char → Prop) : Prop where
  layout : MadeOf q "@media @keyframes ,\x7b\x7d\n".toList
  plain {s : List Char} : MadeOf q s → P s
  append {s t : List Char} : P s → P t → P (s ++ t)
  value {v : List Char} : MadeOf q v → V v
  declared {v : List Char} : V v → P (": ".toList ++ v ++ ";\n".toList)
  trim {s : List Char} : P s → P (trim s)

section Law

variable {q : Char → Bool} {V P : List Char → Prop} (h : Law q V P)
include h

/-- The marks of the layout are plain. -/
theorem Law.mark {s : List Char} (hs : s ⊆ "@media @keyframes ,\x7b\x7d\n".toList := by decide) : P s :=
  h.plain fun c hc => h.layout c (hs hc)

theorem Law.joined {separator : String} {texts : List (List Char)} (hs : P separator.toList)
    (ht : ∀ t ∈ texts, P t) : P (joined separator texts) := by
  unfold Stylesheet.joined
  induction texts with
  | nil => exact h.plain (by simp [MadeOf])
  | cons t texts ih =>
    have ih := ih fun u hu => ht u (List.mem_cons_of_mem _ hu)
    cases texts with
    | nil => simpa using ht t (by simp)
    | cons u texts =>
      rw [List.intercalate_cons_cons]
      exact h.append (h.append (ht t (by simp)) hs) ih

theorem Law.rule {indent : List Char} (hi : P indent) {r : Rule} (hr : r.Obeys q V) :
    P (r.text indent) := by
  have hselectors : P (Stylesheet.joined ",\n" (r.selectors.map fun s => indent ++ s.toList)) := by
    refine h.joined h.mark fun t ht => ?_
    obtain ⟨s, hs, rfl⟩ := List.mem_map.1 ht
    exact h.append hi (h.plain (hr.selectors s hs))
  have hdeclarations : ∀ ds ⊆ r.declarations, P (ds.flatMap (declarationText indent)) := by
    intro ds hds
    induction ds with
    | nil => exact h.plain (by simp [MadeOf])
    | cons d ds ih =>
      obtain ⟨hd, hds⟩ := List.cons_subset.1 hds
      obtain ⟨hname, hvalue⟩ := hr.declarations d hd
      have hname := h.append (h.append hi (h.mark (s := "  ".toList))) (h.plain hname)
      rw [List.flatMap_cons]
      refine h.append ?_ (ih hds)
      simpa [declarationText] using h.append hname (h.declared hvalue)
  exact h.append (h.append (h.append (h.append hselectors h.mark) (hdeclarations _ fun _ => id)) hi) h.mark

theorem Law.group {heading separator : String} {rules : List Rule} (hh : MadeOf q heading.toList)
    (hs : P separator.toList) (hr : ∀ r ∈ rules, r.Obeys q V) :
    P (groupText heading separator rules) := by
  have hrules : P (Stylesheet.joined separator (rules.map (Rule.text "  ".toList))) := by
    refine h.joined hs fun t ht => ?_
    obtain ⟨r, hrule, rfl⟩ := List.mem_map.1 ht
    exact h.rule h.mark (hr r hrule)
  exact h.append (h.append (h.append (h.plain hh) h.mark) hrules) h.mark

theorem Law.item {i : Item} (hi : i.Obeys q V) : P i.text := by
  have hheading : ∀ {word name : String}, word.toList ⊆ "@media @keyframes ,\x7b\x7d\n".toList →
      MadeOf q name.toList → MadeOf q (word ++ name).toList := by
    intro word name hword hname
    rw [String.toList_append]
    exact MadeOf.append (fun c hc => h.layout c (hword hc)) hname
  cases i with
  | style r => exact h.rule h.mark hi
  | media condition rules => exact h.group (hheading (by decide) hi.1) h.mark hi.2
  | keyframes name frames => exact h.group (hheading (by decide) hi.1) h.mark hi.2

/-- A sheet has the property when its items are made of the right texts. -/
theorem Law.sheet {items : List Item} (hi : ∀ i ∈ items, i.Obeys q V) : P (sheetText items) := by
  refine h.append (h.joined h.mark fun t ht => ?_) h.mark
  obtain ⟨i, hitem, rfl⟩ := List.mem_map.1 ht
  exact h.item (hi i hitem)

end Law

/-! ### The sheets -/

/-- The characters that the fixed sheets are made of. -/
def isSheetChar (c : Char) : Bool :=
  c.toNat < 0x80 && c != '<' && c != '/' && c != ';' && c != '\x00'

/-- The bytes of such characters. -/
def isSheetByte (b : UInt8) : Bool :=
  Nat.blt b.toNat 0x80 && !Nat.beq b.toNat 0x3C && !Nat.beq b.toNat 0x2F && !Nat.beq b.toNat 0x3B &&
    !Nat.beq b.toNat 0

/-- An ASCII character is a byte of its own, and every other one has a byte beyond ASCII. -/
theorem exists_byte {s : String} {c : Char} (h : c ∈ s.toList) :
    ∃ b ∈ s.toByteArray.data.toList, b.toNat < 0x80 → b.toNat = c.toNat := by
  have hbytes : s.toByteArray.data.toList = s.toList.flatMap String.utf8EncodeChar := by
    rw [← String.utf8Encode_toList, List.utf8Encode, List.data_toByteArray, List.toList_toArray]
  have hchar : ∃ b ∈ String.utf8EncodeChar c, b.toNat < 0x80 → b.toNat = c.toNat := by
    have hc : c.val.toNat = c.toNat := rfl
    unfold String.utf8EncodeChar
    dsimp only
    rw [hc]
    split
    · exact ⟨_, List.mem_singleton_self _, fun _ => by rw [UInt8.toNat_ofNat']; omega⟩
    · split
      · refine ⟨_, List.mem_cons_self, fun h => ?_⟩
        rw [UInt8.toNat_ofNat'] at h
        omega
      · split
        · refine ⟨_, List.mem_cons_self, fun h => ?_⟩
          rw [UInt8.toNat_ofNat'] at h
          omega
        · refine ⟨_, List.mem_cons_self, fun h => ?_⟩
          rw [UInt8.toNat_ofNat'] at h
          omega
  obtain ⟨b, hb, hascii⟩ := hchar
  exact ⟨b, hbytes ▸ List.mem_flatMap.2 ⟨c, h, hb⟩, hascii⟩

/-- The test of the bytes: to find the characters of a long literal takes the kernel far more time. -/
theorem madeOf_of_bytes {s : String} (h : s.toByteArray.data.toList.all isSheetByte = true) :
    MadeOf isSheetChar s.toList := by
  intro c hc
  obtain ⟨b, hb, hascii⟩ := exists_byte hc
  have hbyte := List.all_eq_true.1 h b hb
  simp only [isSheetByte, Bool.and_eq_true, Nat.blt_eq, Bool.not_eq_true'] at hbyte
  obtain ⟨⟨⟨⟨hlt, h1⟩, h2⟩, h3⟩, h4⟩ := hbyte
  have hchar := hascii hlt
  rw [hchar] at hlt h1 h2 h3 h4
  simp only [isSheetChar, Bool.and_eq_true, decide_eq_true_eq, bne_iff_ne]
  refine ⟨⟨⟨⟨hlt, ?_⟩, ?_⟩, ?_⟩, ?_⟩
  · rintro rfl
    exact absurd h1 (by decide)
  · rintro rfl
    exact absurd h2 (by decide)
  · rintro rfl
    exact absurd h3 (by decide)
  · rintro rfl
    exact absurd h4 (by decide)

theorem madeOf_items {items : List Item}
    (h : (items.all fun i => i.strings.all fun s => s.toByteArray.data.toList.all isSheetByte) = true) :
    ∀ i ∈ items, ∀ s ∈ i.strings, MadeOf isSheetChar s.toList :=
  fun i hi s hs => madeOf_of_bytes (List.all_eq_true.1 (List.all_eq_true.1 h i hi) s hs)

/-- The items of all sheets but that of the theme. -/
def fixedItems : List Item :=
  baseSheets.flatMap Prod.snd ++ (forms ++ (animations ++ (reducedMotion ++ printing)))

theorem madeOf_fixedItems : ∀ i ∈ fixedItems, ∀ s ∈ i.strings, MadeOf isSheetChar s.toList :=
  madeOf_items (by decide +kernel)

/-- The theme sheet is fixed but for its font and its two colours. -/
theorem obeys_themeSheet {q : Char → Bool} (hq : ∀ c, isSheetChar c = true → q c = true)
    {V : List Char → Prop} (hV : ∀ {v}, MadeOf q v → V v) {theme : Theme}
    (h1 : V theme.primaryColor.toList) (h2 : V theme.secondaryColor.toList) :
    ∀ i ∈ themeSheet theme, i.Obeys q V := by
  have hfixed : ∀ {s : String}, MadeOf isSheetChar s.toList → MadeOf q s.toList := fun h => h.mono hq
  have hvalue : ∀ {s : String}, MadeOf isSheetChar s.toList → V s.toList := fun h => hV (hfixed h)
  have hstack : MadeOf isSheetChar theme.fontFamily.stack.toList := by
    cases theme.fontFamily <;> exact madeOf_of_bytes (by decide)
  simp only [themeSheet, List.forall_mem_cons, Item.Obeys]
  refine ⟨⟨?_, ?_⟩, ⟨?_, ?_⟩, by simp⟩ <;> simp only [List.forall_mem_cons]
  · exact ⟨hfixed (by decide), by simp⟩
  · exact ⟨⟨hfixed (by decide), hvalue hstack⟩, ⟨hfixed (by decide), hvalue (by decide)⟩,
      ⟨hfixed (by decide), hvalue (by decide)⟩, ⟨hfixed (by decide), hvalue (by decide)⟩, by simp⟩
  · exact ⟨hfixed (by decide), by simp⟩
  · exact ⟨⟨hfixed (by decide), h1⟩, ⟨hfixed (by decide), h2⟩, ⟨hfixed (by decide), hvalue (by decide)⟩,
      ⟨hfixed (by decide), hvalue (by decide)⟩, ⟨hfixed (by decide), hvalue (by decide)⟩,
      ⟨hfixed (by decide), hvalue (by decide)⟩, by simp⟩

/-- The stylesheet of a page before it is made safe for its element. -/
def partsText (theme : Theme) (animate : Bool) : List Char :=
  joined "\n\n" <| ((parts (baseSheets.map fun s => sheetText s.2) theme animate).map trim).filter
    fun part => !part.isEmpty

/-- The stylesheet of a page has the property when its colours may be values of declarations. -/
theorem Law.page {q : Char → Bool} {V P : List Char → Prop} (h : Law q V P)
    (hq : ∀ c, isSheetChar c = true → q c = true) {theme : Theme}
    (h1 : V theme.primaryColor.toList) (h2 : V theme.secondaryColor.toList) (animate : Bool) :
    P (partsText theme animate) := by
  have hfixed : ∀ {items : List Item}, items ⊆ fixedItems → P (sheetText items) := fun hi =>
    h.sheet fun i hm => Item.obeys_of_strings h.value fun s hs => (madeOf_fixedItems i (hi hm) s hs).mono hq
  have hparts : ∀ t ∈ parts (baseSheets.map fun s => sheetText s.2) theme animate, P t := by
    intro t ht
    simp only [parts, List.mem_append, List.mem_cons, List.mem_map, List.not_mem_nil, or_false] at ht
    rcases ht with ((⟨b, hb, rfl⟩ | rfl | rfl) | ht) | rfl | rfl
    · exact hfixed fun i hi => List.mem_append_left _ (List.mem_flatMap.2 ⟨b, hb, hi⟩)
    · exact h.sheet (obeys_themeSheet hq h.value h1 h2)
    · exact hfixed fun i hi => by simp [fixedItems, hi]
    · cases animate with
      | true =>
        obtain rfl := List.mem_singleton.1 ht
        exact hfixed fun i hi => by simp [fixedItems, hi]
      | false => cases ht
    · exact hfixed fun i hi => by simp [fixedItems, hi]
    · exact hfixed fun i hi => by simp [fixedItems, hi]
  refine h.joined h.mark fun t ht => ?_
  obtain ⟨u, hu, rfl⟩ := List.mem_map.1 (List.mem_filter.1 ht).1
  exact h.trim (hparts u hu)

/-! ### Words of the colours -/

/-- A word that no fixed text has a part in: it begins with a mark that these are written without, and it
holds neither the semicolon behind a value nor a backslash. -/
structure Foreign (w : List Char) : Prop where
  head : ∃ m v, w = m :: v ∧ isSheetChar m = false
  semicolon : ';' ∉ w
  backslash : '\\' ∉ w

/-- Behind each mark that the fixed texts are written without there is a semicolon. -/
def Closing (s : List Char) : Prop :=
  ∀ m y, m :: y <:+ s → isSheetChar m = false → m ≠ ';' → ';' ∈ y

/-- A word stands in a text only if `G` holds, and cannot go on behind the text. -/
structure Keeps (w : List Char) (G : Prop) (s : List Char) : Prop where
  word : w <:+: s → G
  closing : Closing s

theorem suffix_append_cases {m : Char} {y s t : List Char} (h : m :: y <:+ s ++ t) :
    m :: y <:+ t ∨ ∃ z, y = z ++ t ∧ m :: z <:+ s := by
  obtain ⟨x, hx⟩ := h
  rcases List.append_eq_append_iff.1 hx with ⟨a, rfl, ha⟩ | ⟨a, rfl, rfl⟩
  · cases a with
    | nil => exact .inl (by rw [ha]; exact List.suffix_rfl)
    | cons d a =>
      obtain ⟨rfl, rfl⟩ := List.cons.inj ha
      exact .inr ⟨a, rfl, List.suffix_append x _⟩
  · exact .inl (List.suffix_append a _)

section

variable {w : List Char} {G : Prop} (hw : Foreign w)
include hw

theorem Foreign.not_infix {s : List Char} (hs : MadeOf isSheetChar s) : ¬ w <:+: s := by
  intro h
  obtain ⟨m, v, rfl, hm⟩ := hw.head
  have := hs m (h.mem (by simp))
  rw [hm] at this
  cases this

/-- A word that stands in two texts together stands in one of them, unless it begins in the first. -/
theorem Foreign.infix_append {s t : List Char} (h : w <:+: s ++ t) :
    w <:+: s ∨ w <:+: t ∨ ∃ m y v, w = m :: y ++ v ∧ v ≠ [] ∧ m :: y <:+ s ∧ v <+: t := by
  rcases List.infix_append_iff.1 h with h | h | ⟨u, v, rfl, hu, hv⟩
  · exact .inl h
  · exact .inr (.inl h)
  · cases u with
    | nil => exact .inr (.inl hv.isInfix)
    | cons m y =>
      by_cases hne : v = []
      · subst hne
        exact .inl (by simpa using hu.isInfix)
      · exact .inr (.inr ⟨m, y, v, rfl, hne, hu, hv⟩)

theorem Foreign.eq_head {m : Char} {y v : List Char} (h : w = m :: y ++ v) :
    isSheetChar m = false ∧ m ≠ ';' ∧ ';' ∉ y ∧ ';' ∉ v := by
  obtain ⟨m', v', he, hm⟩ := hw.head
  obtain ⟨rfl, -⟩ := List.cons.inj (he.symm.trans h)
  have hsemicolon := hw.semicolon
  rw [h] at hsemicolon
  simp only [List.cons_append, List.mem_cons, List.mem_append, not_or] at hsemicolon
  exact ⟨hm, Ne.symm hsemicolon.1, hsemicolon.2⟩

theorem law_keeps : Law isSheetChar (fun v => w <:+: v → G) (Keeps w G) where
  layout := by decide
  plain hs := by
    refine ⟨fun h => absurd h (hw.not_infix hs), fun m y h hm => ?_⟩
    have := hs m (h.mem (by simp))
    rw [hm] at this
    cases this
  append hs ht := by
    refine ⟨fun h => ?_, fun m y h hm hne => ?_⟩
    · rcases hw.infix_append h with h | h | ⟨m, y, v, he, -, hy, -⟩
      · exact hs.word h
      · exact ht.word h
      · obtain ⟨hm, hne, hnot, -⟩ := hw.eq_head he
        exact absurd (hs.closing m y hy hm hne) hnot
    · rcases suffix_append_cases h with h | ⟨z, rfl, hz⟩
      · exact ht.closing m y h hm hne
      · exact List.mem_append_left _ (hs.closing m z hz hm hne)
  value hv h := absurd h (hw.not_infix hv)
  declared := by
    intro v hv
    have hcolon : MadeOf isSheetChar ": ".toList := by decide
    have hend : ∀ m ∈ ";\n".toList, isSheetChar m = true ∨ m = ';' := by decide
    refine ⟨fun h => ?_, fun m y h hm hne => ?_⟩
    · rcases hw.infix_append h with h | h | ⟨m, y, u, he, hu, -, hpre⟩
      · rcases hw.infix_append h with h | h | ⟨m, y, u, he, -, hy, -⟩
        · exact absurd h (hw.not_infix hcolon)
        · exact hv h
        · have := hcolon m (hy.mem (by simp))
          rw [(hw.eq_head he).1] at this
          cases this
      · obtain ⟨m, u, rfl, hm⟩ := hw.head
        rcases hend m (h.mem (by simp)) with hsheet | rfl
        · rw [hm] at hsheet
          cases hsheet
        · exact absurd (by simp) hw.semicolon
      · obtain ⟨c, u, rfl⟩ := List.exists_cons_of_ne_nil hu
        have hpre : c :: u <+: [';', '\n'] := hpre
        obtain ⟨rfl, -⟩ := List.cons_prefix_cons.1 hpre
        exact absurd (by simp) (hw.eq_head he).2.2.2
    · rcases suffix_append_cases h with h | ⟨z, rfl, -⟩
      · rcases hend m (h.mem (by simp)) with hsheet | rfl
        · rw [hm] at hsheet
          cases hsheet
        · exact absurd rfl hne
      · simp
  trim := by
    intro s hs
    obtain ⟨before, after, hcut, -, hafter⟩ := exists_trim_eq s
    refine ⟨fun h => hs.word (h.trans (isInfix_trim s)), fun m y h hm hne => ?_⟩
    have hsuffix : m :: (y ++ after) <:+ s := by
      obtain ⟨x, hx⟩ := h
      exact ⟨before ++ x, by rw [hcut, ← hx]; simp⟩
    refine (List.mem_append.1 (hs.closing m _ hsuffix hm hne)).resolve_right fun hmem => ?_
    exact absurd (hafter _ hmem) (by decide)

end

/-- The stylesheet of a page before it is made safe holds such a word only where a colour does. -/
theorem infix_of_partsText (hw : Foreign w) {theme : Theme} {animate : Bool}
    (h : w <:+: partsText theme animate) :
    w <:+: theme.primaryColor.toList ∨ w <:+: theme.secondaryColor.toList :=
  ((law_keeps hw).page (fun _ => id) .inl .inr animate).word h

/-- So does the stylesheet. -/
theorem infix_of_pageText (hw : Foreign w) {theme : Theme} {animate : Bool}
    (h : w <:+: pageText theme animate) :
    w <:+: theme.primaryColor.toList ∨ w <:+: theme.secondaryColor.toList :=
  have hguarded : Embed.Guarded false (partsText theme animate) (pageText theme animate) :=
    (Embed.guards_endTag (by decide)).guarded _ false
  infix_of_partsText hw (Embed.Guarded.infix_of_infix hguarded hw.backslash h)

/-! ### No marks of a tag -/

/-- A text without `<`. -/
def Unmarked (s : String) : Prop := '<' ∉ s.toList

instance : DecidablePred Unmarked := fun s => inferInstanceAs (Decidable ('<' ∉ s.toList))

/-- A mark by itself stands in the stylesheet only if it stands in a colour. -/
theorem foreign_singleton {m : Char} (hm : isSheetChar m = false)
    (h : m ≠ ';' ∧ m ≠ '\\' := by decide) : Foreign [m] where
  head := ⟨m, [], rfl, hm⟩
  semicolon := by simpa using Ne.symm h.1
  backslash := by simpa using Ne.symm h.2

theorem not_mem_partsText {theme : Theme} (h1 : Unmarked theme.primaryColor)
    (h2 : Unmarked theme.secondaryColor) (animate : Bool) : '<' ∉ partsText theme animate := fun h =>
  (infix_of_partsText (foreign_singleton (m := '<') (by decide)) ((List.singleton_infix_iff _ _).2 h)).elim
    (fun h => h1 (h.mem (by simp))) fun h => h2 (h.mem (by simp))

/-- The stylesheet of a page whose colours hold no `<` is its parts as they are. -/
theorem pageText_eq {theme : Theme} (h1 : Unmarked theme.primaryColor)
    (h2 : Unmarked theme.secondaryColor) (animate : Bool) :
    pageText theme animate = partsText theme animate :=
  Embed.style_eq_self (not_mem_partsText h1 h2 animate)

/-- The stylesheet of a page without `<` in its colours has none either. -/
theorem not_mem_pageText {theme : Theme} (h1 : Unmarked theme.primaryColor)
    (h2 : Unmarked theme.secondaryColor) (animate : Bool) : '<' ∉ pageText theme animate := by
  rw [pageText_eq h1 h2]
  exact not_mem_partsText h1 h2 animate

end PagePress.Stylesheet
