import PagePress.Compile
import PagePress.Proofs.Render
import PagePress.Proofs.Script.Page
import PagePress.Proofs.Stylesheet.Page

/-!
The document of a page as a tree. What is inserted in the layout of a document is itself made of
trees, and so is the whole (`assemble_parts`). It is a proper tree as soon as the body is one and
neither the stylesheet nor the script holds a `<`.
-/

namespace PagePress.Markup

open Text Html Document

/-! ### Outlines -/

/-- A document with what is inserted in its layout as trees. -/
structure Outline where
  head : DocumentHead
  headSnippets : List Node
  css : List Char
  body : List Node
  script : List Char
  bodySnippets : List Node

namespace Outline

/-- The inserted texts. -/
def parts (o : Outline) : DocumentParts where
  body := Node.textAll o.body
  css := o.css
  script := o.script
  headSnippets := Node.textAll o.headSnippets
  bodySnippets := Node.textAll o.bodySnippets

/-- Trees on a line of their own, if they are written at all. -/
def inserted (ns : List Node) : List Node := if (Node.textAll ns).isEmpty then [] else .line 2 :: ns

/-- What the head of a document holds before the stylesheet. -/
def headNodes (o : Outline) : List Node :=
  metadata o.head ++ links o.head ++ inserted o.headSnippets ++ [.line 2]

/-- What stands inside the style element of a document. -/
def sheet (o : Outline) : List Node := [.line 0, .raw (.ofList o.css), .line 2]

/-- The script element of a document, if there is a script. -/
def scriptNodes (o : Outline) : List Node :=
  if o.script.isEmpty then []
  else [.line 2, .element "script" [] [.line 0, .raw (.ofList o.script), .line 2]]

/-- What the body of a document holds. -/
def bodyNodes (o : Outline) : List Node :=
  .line 0 :: (o.body ++ o.scriptNodes ++ inserted o.bodySnippets ++ [.line 0])

/-- The head and the body of a document. -/
def children (o : Outline) : List Node :=
  [.line 0, .element "head" [] (o.headNodes ++ [.element "style" [] o.sheet, .line 0]),
    .line 0, .element "body" [] o.bodyNodes, .line 0]

/-- The trees of a document behind its declaration. -/
def nodes (o : Outline) : List Node :=
  [.line 0, .element "html" [.fixed "lang" "en"] o.children]

/-- The parts of a document. -/
def docParts (o : Outline) : List (Part Element) :=
  .tag (.declaration "DOCTYPE html".toList) :: treeParts o.nodes

/-- The tags of a document with the texts after them. -/
def document (o : Outline) : List (Span Element) := spans o.docParts

theorem textAll_insertion (ns : List Node) :
    Node.textAll (insertion (Node.textAll ns)) = Node.textAll (inserted ns) := by
  unfold insertion inserted
  split
  · rfl
  · simp [Node.textAll, Node.raw, Node.text, Piece.text]

/-- The text of a document is the text of its trees. -/
theorem assemble_parts (o : Outline) :
    assemble o.head o.parts = "<!DOCTYPE html>".toList ++ Node.textAll o.nodes := by
  have hhead : (Document.head o.head o.parts).text =
      (Node.element "head" [] (o.headNodes ++ [.element "style" [] o.sheet, .line 0])).text := by
    simp only [Document.head, headNodes, parts, sheet, Node.text, textAll_append, textAll_insertion,
      Node.textAll, List.append_assoc, List.append_nil]
  have hraw : ∀ s : List Char, (Node.raw (.ofList s)).text = s := by
    simp [Node.raw, Node.text, Piece.text]
  have hbody : (Document.body o.parts).text = (Node.element "body" [] o.bodyNodes).text := by
    simp only [Document.body, bodyNodes, parts, Node.text, List.cons_append, List.nil_append,
      textAll_append, textAll_insertion, scriptNodes, Node.textAll, hraw, List.append_assoc,
      List.append_nil]
    rfl
  rw [assemble, Document.nodes, nodes, children]
  simp only [Node.textAll, Node.text, hhead, hbody, List.append_nil, List.append_assoc]
  rfl

theorem text_document (o : Outline) : text o.document = assemble o.head o.parts := by
  rw [assemble_parts, ← chars_treeParts, ← List.nil_append (text o.document)]
  exact lead_append_text_spans o.docParts

/-! ### Proper documents -/

theorem proper_metaVoid {attrs : List Attribute} (h : ∀ a ∈ attrs, ProperAttribute a) :
    Proper (.void "meta" attrs) :=
  ⟨by decide, h, fun h => absurd h (by decide), fun h => absurd h (by decide)⟩

theorem proper_linkVoid {attrs : List Attribute} (h : ∀ a ∈ attrs, ProperAttribute a) :
    Proper (.void "link" attrs) :=
  ⟨by decide, h, fun h => absurd h (by decide), fun h => absurd h (by decide)⟩

theorem proper_metaNode {key value : String} {content : Attribute}
    (hkey : isAttrName key.toList = true) (hvalue : IsValue value.toList)
    (hcontent : ProperAttribute content) : ProperAll (metaNode key value content) := by
  have hvoid : Proper (.void "meta" [.fixed key value, content]) :=
    proper_metaVoid (by simp [hkey, hvalue, hcontent])
  simp [metaNode, hvoid]

theorem proper_metadata (h : DocumentHead) : ProperAll (metadata h) := by
  have hcharset : Proper (.void "meta" [.fixed "charset" "UTF-8"]) :=
    proper_metaVoid (by simp +decide)
  have hgraph : Proper (.comment " Open Graph ") := by
    rw [Proper]
    decide
  have htwitter : Proper (.comment " Twitter ") := by
    rw [Proper]
    decide
  simp only [metadata, properAll_append]
  refine ⟨⟨⟨⟨⟨⟨⟨⟨⟨⟨⟨⟨⟨⟨?_, ?_⟩, ?_⟩, ?_⟩, ?_⟩, ?_⟩, ?_⟩, ?_⟩, ?_⟩, ?_⟩, ?_⟩, ?_⟩, ?_⟩, ?_⟩, ?_⟩
  all_goals first
    | exact proper_metaNode (by decide) (by decide) (by simp +decide)
    | simp +decide [hcharset, hgraph, htwitter]

theorem proper_links (h : DocumentHead) : ProperAll (links h) := by
  have hicon : ∀ icon, Proper (.void "link" [.fixed "rel" "icon", .escaped "href" icon]) :=
    fun icon => proper_linkVoid (by simp +decide)
  have hstyles : Proper (.void "link"
      [.fixed "rel" "preconnect", .fixed "href" "https://fonts.googleapis.com"]) :=
    proper_linkVoid (by simp +decide)
  have hfonts : Proper (.void "link"
      [.fixed "rel" "preconnect", .fixed "href" "https://fonts.gstatic.com", .bare "crossorigin"]) :=
    proper_linkVoid (by simp +decide)
  unfold links
  split <;> simp [hicon, hstyles, hfonts]

theorem proper_inserted {ns : List Node} (h : ProperAll ns) : ProperAll (inserted ns) := by
  unfold inserted
  split <;> simp [h]

/-- A style or script element is proper if there is no `<` in it. -/
theorem proper_sealed {n : String} {attrs : List Attribute} {children : List Node}
    (hn : n ∈ ["script", "style"]) (ha : ∀ a ∈ attrs, ProperAttribute a)
    (hc : '<' ∉ Node.textAll children) : Proper (.element n attrs children) := by
  have key : ∀ n ∈ ["script", "style"],
      (isName n.toList = true ∧ n ∉ Inspect.voidElements) ∧ n.toList ∈ sealedNames := by decide
  obtain ⟨h1, h2⟩ := key n hn
  rw [Proper, if_pos h2]
  exact ⟨⟨h1, ha⟩, hc⟩

theorem not_mem_lines {s : List Char} (h : '<' ∉ s) (i j : Nat) :
    '<' ∉ Node.textAll [.line i, .raw (.ofList s), .line j] := by
  simp [Node.textAll, Node.line, Node.fixed, Node.raw, Node.text, Piece.text, h, List.mem_replicate]

/-- What an outline needs for its document to be proper. -/
structure WellFormed (o : Outline) : Prop where
  headSnippets : ProperAll o.headSnippets
  css : '<' ∉ o.css
  body : ProperAll o.body
  script : '<' ∉ o.script
  bodySnippets : ProperAll o.bodySnippets

variable {o : Outline}

theorem proper_headNodes (h : ProperAll o.headSnippets) : ProperAll o.headNodes := by
  simp [headNodes, proper_metadata, proper_links, proper_inserted h]

theorem WellFormed.proper_nodes (h : o.WellFormed) : ProperAll o.nodes := by
  have hsheet : Proper (.element "style" [] o.sheet) :=
    proper_sealed (by simp) (by simp) (not_mem_lines h.css 0 2)
  have hscript : ProperAll o.scriptNodes := by
    have helement : Proper (.element "script" [] [.line 0, .raw (.ofList o.script), .line 2]) :=
      proper_sealed (by simp) (by simp) (not_mem_lines h.script 0 2)
    unfold scriptNodes
    split <;> simp [helement]
  have hbody : ProperAll o.bodyNodes := by
    simp [bodyNodes, h.body, hscript, proper_inserted h.bodySnippets]
  simp +decide [nodes, children, proper_headNodes h.headSnippets, hsheet, hbody]

theorem WellFormed.wellFormed_document (h : o.WellFormed) : Markup.WellFormed o.document := by
  refine wellFormed_spans fun p hp => ?_
  rcases List.mem_cons.1 hp with rfl | hp
  · exact rfl
  · exact wellFormed_treeParts o.nodes h.proper_nodes p hp

end Outline

end PagePress.Markup
