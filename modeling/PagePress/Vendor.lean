import PagePress.Html.Node
import PagePress.Page

/-!
Markup of third parties: an analytics script and advertisements. Each is there only when it is
both wanted and configured.
-/

namespace PagePress

/-- The identifiers under which a site is known to third parties. -/
structure Vendors where
  analyticsId : Option String := none
  adsenseClientId : Option String := none
  deriving DecidableEq, Repr, Inhabited

namespace Vendors

/-- The publisher's id: the client's id without the mark in front of it. -/
def publisherId? (v : Vendors) : Option String :=
  (given? v.adsenseClientId).map fun id =>
    match id.toList with
    | 'c' :: 'a' :: '-' :: rest => .ofList rest
    | _ => id

end Vendors

namespace Snippet

open Html

/-- The analytics scripts: the loader, and the set-up of the measurement. -/
def analytics (id : String) : List Node :=
  [.element "script"
      [.bare "async",
        ⟨"src", some [.fixed "https://www.googletagmanager.com/gtag/js?id=", .address id]⟩] [],
    .line 0,
    .element "script" []
      [.fixed r#"
  window.dataLayer = window.dataLayer || [];
  window.gtag = window.gtag || function () {
    window.dataLayer.push(arguments);
  };
  window.gtag('js', new Date());
  window.gtag('config', "#,
        .piece (.literal id),
        .fixed ");\n"]]

/-- The tag that proves the ownership of a site. -/
def adsenseHead (id : String) : List Node :=
  [.void "meta" [.fixed "name" "google-adsense-account", .escaped "content" id]]

/-- The scripts that show advertisements. -/
def adsenseBody (id : String) : List Node :=
  [.element "script"
      [.bare "async",
        ⟨"src", some [.fixed "https://pagead2.googlesyndication.com/pagead/js/adsbygoogle.js?client=",
          .address id]⟩,
        .fixed "crossorigin" "anonymous"] [],
    .line 0,
    .element "script" []
      [.fixed r#"
  (window.adsbygoogle = window.adsbygoogle || []).push({
    google_ad_client: "#,
        .piece (.literal id),
        .fixed r#",
    enable_page_level_ads: true
  });
"#]]

end Snippet

/-- The markup of third parties at the end of the head and of the body of a document. -/
structure Snippets where
  head : List Char
  body : List Char
  deriving DecidableEq, Repr

/-- The markup of the third parties that are wanted and configured. -/
def Snippets.render (v : Vendors) (analytics adsense : Bool) : Snippets :=
  let measurement := if analytics then given? v.analyticsId else none
  let client := if adsense then given? v.adsenseClientId else none
  let head := (measurement.toList.map Snippet.analytics) ++ client.toList.map Snippet.adsenseHead
  { head := List.intercalate ['\n'] (head.map Html.Node.textAll)
    body := (client.map fun id => Html.Node.textAll (Snippet.adsenseBody id)).getD [] }

end PagePress
