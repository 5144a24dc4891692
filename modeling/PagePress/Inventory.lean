/-!
The parts that documents are made from, by the names under which they are stored. All of them
have to be there before the first page is compiled.
-/

namespace PagePress.Inventory

/-- The layouts in the order in which they are looked up. -/
def layouts : List String := [
  "page_shell.jinja", "sections/hero.jinja", "sections/content.jinja", "sections/cta.jinja",
  "scripts/form_base.js", "scripts/smooth_scroll.js", "scripts/hosted_form_service.js",
  "scripts/platform_native_forms.js", "scripts/custom_endpoint.js", "snippets/analytics.jinja",
  "snippets/adsense_head.jinja", "snippets/adsense_body.jinja"]

/-- The stylesheets in the order in which they are looked up. -/
def stylesheets : List String :=
  ["styles/reset.css", "styles/utilities.css", "styles/responsive.css"]

/-- The first part that is missing, the layouts before the stylesheets. -/
def firstMissing? (isThere : String → Bool) : Option String :=
  (layouts ++ stylesheets).find? fun name => !isThere name

/-- The layouts by name. -/
def sortedLayouts : List String := layouts.mergeSort fun a b => a ≤ b

end PagePress.Inventory
