import PagePress.Proofs.Shield.Comments
import PagePress.Proofs.Shield.Embedded
import PagePress.Proofs.Shield.Metas
import PagePress.Reduce

/-!
Preformatted elements. Every pass of the reduction but the two for stylesheets and scripts sets the
elements of a document aside, and a placeholder comes back as its element if the pass leaves it
whole. A tag that runs on into an element loses it, and so does an element that holds the start of
another one. Where tags and elements keep apart (`Orderly`), all passes together leave the `pre` and
`textarea` elements as they were (`preformatted_reduce`).
-/

namespace PagePress.Html.Shield

open Text Reduce

/-- The preformatted elements that the shield pattern finds in a text. -/
def preformatted (s : List Char) : List (List Char) := (saved (segments shielded? s)).filter isPreformatted

/-- A document whose elements no pass of the reduction breaks. Every `<` outside of them begins a tag
that ends before the next one, opens no element, and has no word directly behind an empty value; and
the scans for stylesheets and scripts keep to the elements of their name. -/
structure Orderly (h : List Char) : Prop where
  tags : Tagged (fun s => Unshielded s ∧ Separated (s ++ ['>'])) (segments shielded? h)
  styles : ∀ u ∈ saved (segments shielded? h), Confined "style" styleFill u
  scripts : ∀ u ∈ saved (segments shielded? h), Confined "script" scriptFill (compactStyles u)

variable {P : List Char → Prop} {p : List (Segment Unit)}

theorem Outline.preformatted_source (hp : Outline P p) :
    preformatted (source p) = (saved p).filter isPreformatted := by
  rw [preformatted, hp.scanned, forget_unit]

/-- The reduction leaves the preformatted elements of an orderly document as they were, in their order,
and no placeholder remains. -/
theorem preformatted_reduce {h : List Char} (hnul : '\x00' ∉ h) (hcomment : ¬ "<!--".toList <:+: h)
    (hd : Orderly h) : preformatted (reduce h) = preformatted h ∧ '\x00' ∉ reduce h := by
  have hsource : source (segments shielded? h) = h := source_segments shielded? h
  have h₀ : Outline (fun s => Separated (s ++ ['>'])) (segments shielded? h) :=
    ⟨hd.tags, fun u hu => (scanned_segments h).2 u () (mem_saved.1 hu), by rwa [hsource]⟩
  have e₁ := stripComments_eq_self h₀ (by rwa [hsource])
  obtain ⟨p₂, e₂, h₂, s₂⟩ := exists_collapsed h₀ fun s s' hs hthin => hs.of_thinned hthin
  obtain ⟨p₃, e₃, h₃, m₃, s₃⟩ := exists_compactStyles h₂ (by rw [s₂]; exact hd.styles)
  obtain ⟨p₄, e₄, h₄, s₄⟩ := exists_compactScripts h₃ (by
    rw [m₃, s₂]
    exact List.forall_mem_map.2 hd.scripts)
  obtain ⟨p₅, e₅, h₅, s₅⟩ := exists_dropEmptyAttributes h₄
  obtain ⟨p₆, e₆, h₆, s₆⟩ := exists_dedupeMetas h₅
  obtain ⟨p₇, e₇, h₇, s₇⟩ := exists_hintImages h₆
  have hreduce : reduce h = source p₇ := by
    rw [hsource] at e₁ e₂
    calc reduce h = hintImages (dedupeMetas (dropEmptyAttributes (compactScripts (compactStyles
          (collapseBlanks (stripComments h)))))) := rfl
      _ = source p₇ := by rw [e₁, e₂, e₃, e₄, e₅, e₆, e₇]
  rw [hreduce]
  refine ⟨?_, h₇.nul⟩
  calc preformatted (source p₇) = (saved p₄).filter isPreformatted := by
        rw [h₇.preformatted_source, s₇, s₆, s₅]
    _ = (saved p₂).filter isPreformatted := by rw [s₄, s₃]
    _ = preformatted h := by rw [s₂, preformatted]

/-- A document with white space, an empty attribute, an image and elements of all four kinds, and its
segments. -/
def sampleDocument : List Char :=
  ("<p x=\"\">1 &gt;  0<img src='a' /><pre>a  b</PRE><style>p { }</style><textarea>  \n</textarea >" ++
    "<script>f( );</script>").toList

def sampleParts : List (Segment Unit) :=
  (tagText "p x=\"\"".toList).map .plain ++ ("1 &gt;  0".toList.map .plain ++
    ((tagText "img src='a' /".toList).map .plain ++
      [.piece "<pre>a  b</PRE>".toList (), .piece "<style>p { }</style>".toList (),
        .piece "<textarea>  \n</textarea >".toList (), .piece "<script>f( );</script>".toList ()]))

/-- An element without attributes. -/
def bareElement (name : String) (body : List Char) : RawElement := ⟨name.toList, [], body, name.toList, []⟩

theorem spells_bareElement {name : String} (hname : name ∈ names) {b : List Char}
    (hbody : Closeless name b) :
    (bareElement name b).Spells sameCaseless name (bareElement name b).word := by
  have hsame : ∀ n ∈ names, List.Forall₂ (fun a c => sameLetter a c = true) n.toList n.toList ∧
      List.Forall₂ (fun a c => sameCaseless a c = true) n.toList n.toList := by decide
  obtain ⟨hopens, hcloses⟩ := hsame name hname
  exact spells_of_closeless (isTagName_of_mem hname) (bareElement name b) hopens (by simp [bareElement])
    rfl hcloses (by simp [bareElement]) hbody

theorem segments_sampleDocument : segments shielded? sampleDocument = sampleParts := by cbv

theorem compactStyles_sampleParts : (saved sampleParts).map compactStyles =
    ["<pre>a  b</PRE>".toList, "<style>p{}</style>".toList, "<textarea>  \n</textarea >".toList,
      "<script>f( );</script>".toList] := by
  cbv

theorem orderly_sampleDocument : Orderly sampleDocument := by
  have htags : Tagged (fun s => Unshielded s ∧ Separated (s ++ ['>'])) sampleParts :=
    .tag (by decide) (by decide) (by decide) <| .text (by decide) <|
      .tag (by decide) (by decide) (by decide) <| .element <| .element <| .element <| .element .nil
  have hsheet : styleFill (bareElement "style" "p { }".toList).opening "p { }".toList = "p{}".toList := by
    cbv
  have hcode : scriptFill (bareElement "script" "f( );".toList).opening "f( );".toList = "f();".toList := by
    have hfile : namesFile (tagBody "script" (bareElement "script" "f( );".toList).opening) = false := by
      decide
    rw [scriptFill, hfile]
    cbv
  refine ⟨?_, ?_, ?_⟩
  · rwa [segments_sampleDocument]
  · rw [segments_sampleDocument]
    show ∀ u ∈ ["<pre>a  b</PRE>".toList, "<style>p { }</style>".toList,
      "<textarea>  \n</textarea >".toList, "<script>f( );</script>".toList], _
    simp only [List.forall_mem_cons]
    have hspells : (bareElement "style" "p { }".toList).Spells sameCaseless "style" _ :=
      spells_bareElement (by decide) (by decide)
    refine ⟨.other (by decide), .own _ hspells (by decide) (by decide) ?_, .other (by decide),
      .other (by decide), by simp⟩
    show Closeless "style" (styleFill _ "p { }".toList)
    rw [hsheet]
    decide
  · rw [segments_sampleDocument, ← List.forall_mem_map (P := Confined "script" scriptFill),
      compactStyles_sampleParts]
    simp only [List.forall_mem_cons]
    have hspells : (bareElement "script" "f( );".toList).Spells sameCaseless "script" _ :=
      spells_bareElement (by decide) (by decide)
    refine ⟨.other (by decide), .other (by decide), .other (by decide),
      .own _ hspells (by decide) (by decide) ?_, by simp⟩
    show Closeless "script" (scriptFill _ "f( );".toList)
    rw [hcode]
    decide

/-- In the sample the white space in both preformatted elements stays, and so does the case of a
closing tag. -/
theorem preformatted_sampleDocument :
    '\x00' ∉ sampleDocument ∧ ¬ "<!--".toList <:+: sampleDocument ∧ Orderly sampleDocument ∧
      preformatted (reduce sampleDocument) =
        ["<pre>a  b</PRE>".toList, "<textarea>  \n</textarea >".toList] ∧
      '\x00' ∉ reduce sampleDocument := by
  have hnul : '\x00' ∉ sampleDocument := by decide +kernel
  have hcomment : ¬ "<!--".toList <:+: sampleDocument := fun h =>
    absurd (containsText_iff.2 h) (by decide +kernel)
  obtain ⟨hsame, hrest⟩ := preformatted_reduce hnul hcomment orderly_sampleDocument
  refine ⟨hnul, hcomment, orderly_sampleDocument, ?_, hrest⟩
  rw [hsame, preformatted, segments_sampleDocument]
  decide

end PagePress.Html.Shield
