import PagePress.Inspect.Markup
import PagePress.Proofs.Markup.Shield
import PagePress.Proofs.Script
import PagePress.Proofs.Stylesheet
import PagePress.Reduce.Embedded

/-!
Scripts and stylesheets of documents. The passes that compact them, and the inspection that
empties them, change the content of sealed elements and leave everything else alone
(`rewrites_sealed`).
-/

namespace PagePress.Markup

open Text Html

/-! ### Scans for sealed elements -/

/-- What a scan takes that takes no tags but sealed elements. -/
def takenSealed {ε : Type} (take : ε → Option (List Char)) : Tag ε → Option (List Char)
  | .sealed e => take e
  | _ => none

section

variable {ε : Type} [Written ε] {take : ε → Option (List Char)} {ms : List String}
  {r : Recognizer (List Char)} {f : ε → ε} {d : List (Span ε)}

/-- A scan for elements of shielded names passes over every tag that is not sealed. -/
theorem readBy_takenSealed (hr : OpensWith ms r) (hms : ∀ m ∈ ms, m ∈ Shield.names)
    (hreads : ∀ e : ε, Written.WellFormed e → Reads r (Written.text e) (take e)) (hd : WellFormed d) :
    ReadBy r (takenSealed take) d := by
  refine ⟨hr.contextFree, hr.atMark, fun s hs => ?_, fun s hs => not_mem_of_textChars (hd s hs).after⟩
  obtain ⟨t, a⟩ := s
  have ht := (hd _ hs).tag
  cases t with
  | declaration t =>
    obtain rfl := ht
    exact hr.passes_declaration (by decide)
  | comment t => exact hr.passes_comment fun c hc => (ht c hc).1
  | opening n a => exact hr.passes_opening ht.1 (fun m hm => ht.2.1 m (hms m hm)) ht.2.2
  | closing n => exact hr.passes_closing ht
  | sealed e => exact hreads e ht

/-- A scan that changes sealed elements changes them in a document, and nothing else. -/
theorem rewrites_sealed (hr : OpensWith ms r) (hms : ∀ m ∈ ms, m ∈ Shield.names)
    (hreads : ∀ e : ε, Written.WellFormed e → Reads r (Written.text e) (take e))
    (htake : ∀ e : ε, Written.WellFormed e → (take e).getD (Written.text e) = Written.text (f e))
    (hd : WellFormed d) : Rewrites (replaceAll r) d (mapSealed f d) := by
  refine .of_readBy (readBy_takenSealed hr hms hreads hd) ?_
  induction d with
  | nil => rfl
  | cons s d ih =>
    obtain ⟨t, a⟩ := s
    obtain ⟨hs, hd⟩ := wellFormed_cons.1 hd
    have htag : (takenSealed take t).getD t.text = (t.map f).text := by
      cases t with
      | sealed e => exact htake e hs.tag
      | _ => rfl
    simp [htag, ih hd]

end

/-! ### Elements by name -/

/-- What a scan makes of an element that changes those of some names. -/
def takenElement (ms : List String) (f : Element → Element) (e : Element) : Option (List Char) :=
  if ∃ m ∈ ms, m.toList = e.name then some (Written.text (f e)) else none

section

variable {ms : List String} {r : Recognizer (List Char)} {f : Element → Element} {e : Element}

/-- A scan for elements of some names takes these and passes over the others. -/
theorem reads_takenElement (hr : OpensWith ms r)
    (htakes : ∀ m ∈ ms, ∀ e : Element, e.WellFormed → m.toList = e.name →
      Takes r (Written.text e) (Written.text (f e))) (he : e.WellFormed) :
    Reads r (Written.text e) (takenElement ms f e) := by
  unfold takenElement
  split
  · rename_i hm
    obtain ⟨m, hm, hn⟩ := hm
    exact htakes m hm e he hn
  · rename_i hm
    exact hr.passes_element he fun m hm' hn => hm ⟨m, hm', hn⟩

theorem getD_takenElement (hother : (∀ m ∈ ms, m.toList ≠ e.name) → f e = e) :
    (takenElement ms f e).getD (Written.text e) = Written.text (f e) := by
  unfold takenElement
  split
  · rfl
  · rename_i hm
    rw [hother fun m hm' hn => hm ⟨m, hm', hn⟩]
    rfl

end

/-! ### Compact content -/

/-- A stylesheet compacted, and a script left alone. -/
def Element.compactStyle (e : Element) : Element :=
  if e.name = "style".toList then { e with content := Stylesheet.compact e.content } else e

/-- A script compacted if it has a text of its own, and a stylesheet left alone. -/
def Element.compactScript (e : Element) : Element :=
  if e.name = "script".toList && !Reduce.namesFile (e.attrs.flatMap Attr.text) then
    { e with content := Script.compact e.content }
  else e

/-- A script or a stylesheet with nothing in it. -/
def Element.emptied (e : Element) : Element := { e with content := [] }

theorem opensWith_style : OpensWith ["style"] Reduce.styleElement? where
  contextFree _ _ := rfl
  names := by decide
  none s h := by simp [Reduce.styleElement?, element?, h]

theorem opensWith_script : OpensWith ["script"] Reduce.scriptElement? where
  contextFree _ _ := rfl
  names := by decide
  none s h := by simp [Reduce.scriptElement?, element?, h]

theorem opensWith_raw : OpensWith ["script", "style"] Inspect.rawElement? where
  contextFree _ _ := rfl
  names := by decide
  none s h := by simp [Inspect.rawElement?, elementRepeating?, h]

theorem takes_styleElement {e : Element} (he : e.WellFormed) (hn : "style".toList = e.name) :
    Takes Reduce.styleElement? (Written.text e) (Written.text e.compactStyle) := by
  refine takes_of_eq (fun _ _ => rfl) e.text_ne_nil fun v => ?_
  obtain ⟨el, hel, hp⟩ := element?_gives he hn (v := v) rfl
  refine ⟨el.cut, ?_, hp.cut_text⟩
  simp only [Reduce.styleElement?, hel, Option.map_some, hp.opening, hp.body, hp.closing]
  simp [Element.compactStyle, ← hn, Written.text]

theorem takes_scriptElement {e : Element} (he : e.WellFormed) (hn : "script".toList = e.name) :
    Takes Reduce.scriptElement? (Written.text e) (Written.text e.compactScript) := by
  refine takes_of_eq (fun _ _ => rfl) e.text_ne_nil fun v => ?_
  obtain ⟨el, hel, hp⟩ := element?_gives he hn (v := v) rfl
  refine ⟨el.cut, ?_, hp.cut_text⟩
  have hbody : tagBody "script" el.opening.text = e.attrs.flatMap Attr.text := by
    rw [hp.opening, ← hn, tagBody_openingText]
  have hvalue : Reduce.scriptElement? none (Written.text e ++ v) =
      some (if Reduce.namesFile (e.attrs.flatMap Attr.text) then (el.cut.text, el.cut)
        else (el.opening.text ++ Script.compact el.body.text ++ el.closing.text, el.cut)) := by
    rw [Reduce.scriptElement?, hel, ← hbody]
    rfl
  rw [hvalue]
  by_cases hfile : Reduce.namesFile (e.attrs.flatMap Attr.text) = true
  · rw [if_pos hfile, hp.cut_text]
    simp [Element.compactScript, hfile, Written.text]
  · rw [if_neg hfile, hp.opening, hp.body, hp.closing]
    simp [Element.compactScript, ← hn, hfile, Written.text]

theorem takes_rawElement {m : String} (hm : m ∈ ["script", "style"]) {e : Element}
    (he : e.WellFormed) (hn : m.toList = e.name) :
    Takes Inspect.rawElement? (Written.text e) (Written.text e.emptied) := by
  refine takes_of_eq (fun _ _ => rfl) e.text_ne_nil fun v => ?_
  obtain ⟨el, hel, hp⟩ := elementRepeating?_gives he hn (v := v) rfl
  refine ⟨el.cut, ?_, hp.cut_text⟩
  have htext : Written.text e.emptied = el.opening.text ++ el.closing.text := by
    rw [hp.opening, hp.closing]
    simp [Written.text, Element.emptied]
  rcases List.mem_cons.1 hm with rfl | hm
  · simp only [Inspect.rawElement?, List.findSome?_cons, hel, Option.map_some, htext]
  · obtain rfl := List.mem_singleton.1 hm
    have hscript : elementRepeating? "script" (Written.text e ++ v) = none := by
      have hopen := openTag?_of_ne (m := "script") (by decide) he.isName (by rw [← hn]; decide) e.attrs
        (e.content ++ (closingText e.name ++ v))
      rw [Element.text_append, elementRepeating?, hopen]
      rfl
    simp only [Inspect.rawElement?, List.findSome?_cons, hscript, hel, Option.map_some, htext]

/-! ### What the elements keep -/

theorem Element.compactStyle_wellFormed {e : Element} (h : e.WellFormed) :
    e.compactStyle.WellFormed := by
  unfold compactStyle
  split
  · refine ⟨h.name, h.attrs, fun hm => ?_⟩
    rcases Stylesheet.mem_compact hm with hm | hm | hm | hm
    · exact h.content hm
    · exact absurd hm (by decide)
    · exact absurd hm (by decide)
    · exact absurd hm (by decide)
  · exact h

theorem Element.compactScript_wellFormed {e : Element} (h : e.WellFormed) :
    e.compactScript.WellFormed := by
  unfold compactScript
  split
  · refine ⟨h.name, h.attrs, fun hm => ?_⟩
    rcases Script.mem_compact hm with hm | hm | hm
    · exact h.content hm
    · exact absurd hm (by decide)
    · exact absurd hm (by decide)
  · exact h

theorem Element.nul_compactStyle {e : Element} (h : '\x00' ∉ Written.text e) :
    '\x00' ∉ Written.text e.compactStyle := by
  unfold compactStyle
  split
  · simp only [Written.text, List.mem_append, not_or] at h ⊢
    refine ⟨⟨h.1.1, fun hm => ?_⟩, h.2⟩
    rcases Stylesheet.mem_compact hm with hm | hm | hm | hm
    · exact h.1.2 hm
    · exact absurd hm (by decide)
    · exact absurd hm (by decide)
    · exact absurd hm (by decide)
  · exact h

theorem Element.nul_compactScript {e : Element} (h : '\x00' ∉ Written.text e) :
    '\x00' ∉ Written.text e.compactScript := by
  unfold compactScript
  split
  · simp only [Written.text, List.mem_append, not_or] at h ⊢
    refine ⟨⟨h.1.1, fun hm => ?_⟩, h.2⟩
    rcases Script.mem_compact hm with hm | hm | hm
    · exact h.1.2 hm
    · exact absurd hm (by decide)
    · exact absurd hm (by decide)
  · exact h

theorem reads_styleElement {e : Element} (he : e.WellFormed) :
    Reads Reduce.styleElement? (Written.text e) (takenElement ["style"] Element.compactStyle e) :=
  reads_takenElement opensWith_style
    (fun m hm e he hn => takes_styleElement he (by rw [← hn, List.mem_singleton.1 hm])) he

theorem getD_styleElement (e : Element) :
    (takenElement ["style"] Element.compactStyle e).getD (Written.text e) = Written.text e.compactStyle :=
  getD_takenElement fun h => if_neg fun he => h "style" (by simp) he.symm

theorem reads_scriptElement {e : Element} (he : e.WellFormed) :
    Reads Reduce.scriptElement? (Written.text e) (takenElement ["script"] Element.compactScript e) :=
  reads_takenElement opensWith_script
    (fun m hm e he hn => takes_scriptElement he (by rw [← hn, List.mem_singleton.1 hm])) he

theorem getD_scriptElement (e : Element) :
    (takenElement ["script"] Element.compactScript e).getD (Written.text e) =
      Written.text e.compactScript :=
  getD_takenElement fun h => by
    have hn : e.name ≠ "script".toList := fun he => h "script" (by simp) he.symm
    exact if_neg fun hc => hn (of_decide_eq_true (Bool.and_eq_true_iff.1 hc).1)

/-! ### Documents -/

/-- Sealed elements that the third and the fourth pass of the reduction change one by one. -/
class Compactable (ε : Type) extends Sealed ε where
  compactStyle : ε → ε
  compactScript : ε → ε
  wellFormed_style : ∀ e, WellFormed e → WellFormed (compactStyle e)
  wellFormed_script : ∀ e, WellFormed e → WellFormed (compactScript e)
  nul_style : ∀ e, '\x00' ∉ text e → '\x00' ∉ text (compactStyle e)
  nul_script : ∀ e, '\x00' ∉ text e → '\x00' ∉ text (compactScript e)
  rewrites_style : ∀ d : List (Span ε), Markup.WellFormed d →
    Rewrites Reduce.compactStyles d (mapSealed compactStyle d)
  rewrites_script : ∀ d : List (Span ε), Markup.WellFormed d →
    Rewrites Reduce.compactScripts d (mapSealed compactScript d)

instance : Compactable Element where
  compactStyle := Element.compactStyle
  compactScript := Element.compactScript
  wellFormed_style _ := Element.compactStyle_wellFormed
  wellFormed_script _ := Element.compactScript_wellFormed
  nul_style _ := Element.nul_compactStyle
  nul_script _ := Element.nul_compactScript
  rewrites_style _ :=
    rewrites_sealed opensWith_style (by decide) (fun _ => reads_styleElement) fun e _ => getD_styleElement e
  rewrites_script _ :=
    rewrites_sealed opensWith_script (by decide) (fun _ => reads_scriptElement) fun e _ => getD_scriptElement e

/-- The inspection empties scripts and stylesheets. -/
theorem rewrites_rawElement {d : List (Span Element)} (hd : WellFormed d) :
    Rewrites (replaceAll Inspect.rawElement?) d (mapSealed Element.emptied d) := by
  have htakes : ∀ m ∈ ["script", "style"], ∀ e : Element, e.WellFormed → m.toList = e.name →
      Takes Inspect.rawElement? (Written.text e) (Written.text e.emptied) :=
    fun m hm e he hn => takes_rawElement hm he hn
  refine rewrites_sealed opensWith_raw (by decide) (fun _ => reads_takenElement opensWith_raw htakes)
    (fun e he => getD_takenElement fun h => ?_) hd
  have hmem := he.name
  simp only [sealedNames, List.mem_cons, List.not_mem_nil, or_false] at hmem
  rcases hmem with hn | hn
  · exact absurd hn.symm (h "script" (by simp))
  · exact absurd hn.symm (h "style" (by simp))

end PagePress.Markup
