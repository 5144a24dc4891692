import PagePress.Html.Node
import PagePress.Page
import PagePress.Script.Page
import PagePress.Text.Blank

/-!
The document around the parts of a page: the head with its metadata, the stylesheet, the body and
the scripts.
-/

namespace PagePress

/-- The title, the description and the icon of a document. -/
structure DocumentHead where
  title : String := "Landing Page"
  description : String := ""
  favicon : Option String := none
  deriving DecidableEq, Repr

/-- The head of a page's document; a blank title gives way to the default. -/
def DocumentHead.ofPage (p : Page) : DocumentHead :=
  let base : DocumentHead := {}
  { title := (Text.nonBlank? p.title).getD base.title
    description := p.description
    favicon := p.favicon }

/-- The parts of a document, ready to be inserted. -/
structure DocumentParts where
  body : List Char
  css : List Char
  script : List Char := []
  headSnippets : List Char := []
  bodySnippets : List Char := []
  deriving DecidableEq, Repr

namespace Document

open Html

/-- The version that documents say they were made by. -/
def version : String := "1.0.0"

/-- What a document allows a browser to load, and from where. -/
def contentPolicy : String :=
  "default-src 'self'; script-src 'self' 'unsafe-inline' https://www.googletagmanager.com " ++
  "https://www.google-analytics.com https://pagead2.googlesyndication.com; connect-src 'self' " ++
  Script.submissionOrigin ++ " https://formspree.io https://www.google-analytics.com; " ++
  "img-src 'self' data: https:; style-src 'self' 'unsafe-inline' https://fonts.googleapis.com; " ++
  "font-src 'self' https://fonts.gstatic.com; frame-src https://googleads.g.doubleclick.net;"

/-- A `meta` tag that is keyed by the attribute `key`. -/
def metaNode (key value : String) (content : Attribute) : List Node :=
  [.line 2, .void "meta" [.fixed key value, content]]

/-- A piece of markup on a line of its own, if there is any. -/
def insertion (s : List Char) : List Node :=
  if s.isEmpty then [] else [.line 2, .raw (.ofList s)]

/-- The metadata of a document. -/
def metadata (h : DocumentHead) : List Node :=
  [.line 2, .void "meta" [.fixed "charset" "UTF-8"]] ++
  metaNode "name" "viewport" (.fixed "content" "width=device-width, initial-scale=1.0") ++
  metaNode "http-equiv" "X-UA-Compatible" (.fixed "content" "IE=edge") ++
  metaNode "http-equiv" "Content-Security-Policy" (.escaped "content" contentPolicy) ++
  [.line 2, .element "title" [] [.escaped h.title]] ++
  metaNode "name" "description" (.escaped "content" h.description) ++
  metaNode "name" "generator" (.fixed "content" ("landing-pages " ++ version)) ++
  [.line 2, .comment " Open Graph "] ++
  metaNode "property" "og:title" (.escaped "content" h.title) ++
  metaNode "property" "og:description" (.escaped "content" h.description) ++
  metaNode "property" "og:type" (.fixed "content" "website") ++
  [.line 2, .comment " Twitter "] ++
  metaNode "name" "twitter:card" (.fixed "content" "summary_large_image") ++
  metaNode "name" "twitter:title" (.escaped "content" h.title) ++
  metaNode "name" "twitter:description" (.escaped "content" h.description)

/-- The links of a document: its icon, and the hosts of its fonts. -/
def links (h : DocumentHead) : List Node :=
  (match given? h.favicon with
    | none => []
    | some icon => [.line 2, .void "link" [.fixed "rel" "icon", .escaped "href" icon]]) ++
  [.line 2,
    .void "link" [.fixed "rel" "preconnect", .fixed "href" "https://fonts.googleapis.com"],
    .line 2,
    .void "link" [.fixed "rel" "preconnect", .fixed "href" "https://fonts.gstatic.com",
      .bare "crossorigin"]]

/-- The head of a document. -/
def head (h : DocumentHead) (p : DocumentParts) : Node :=
  .element "head" [] <|
    metadata h ++ links h ++ insertion p.headSnippets ++
    [.line 2, .element "style" [] [.line 0, .raw (.ofList p.css), .line 2], .line 0]

/-- The body of a document. -/
def body (p : DocumentParts) : Node :=
  .element "body" [] <|
    [.line 0, .raw (.ofList p.body)] ++
    (if p.script.isEmpty then []
      else [.line 2, .element "script" [] [.line 0, .raw (.ofList p.script), .line 2]]) ++
    insertion p.bodySnippets ++ [.line 0]

/-- The parts of a document from its first line on. -/
def nodes (h : DocumentHead) (p : DocumentParts) : List Node :=
  [.fixed "<!DOCTYPE html>", .line 0,
    .element "html" [.fixed "lang" "en"] [.line 0, head h p, .line 0, body p, .line 0]]

/-- The text of a document. -/
def assemble (h : DocumentHead) (p : DocumentParts) : List Char := Node.textAll (nodes h p)

end Document

end PagePress
