import PagePress.Embed
import PagePress.Page
import PagePress.Stylesheet.Sheets
import PagePress.Text.Blank

/-!
The stylesheet of a page: the base sheets, the theme of the page, and the rules for forms,
animations and printing. Colours are the author's and are not checked, so the whole is made safe
for a style element at the end.
-/

namespace PagePress.Stylesheet

/-- The font of a page and the colours that its rules refer to. -/
def themeSheet (theme : Theme) : List Item := [
  .style ⟨["body"], [("font-family", theme.fontFamily.stack), ("color", "#333333"),
    ("line-height", "1.6"), ("overflow-x", "hidden")]⟩,
  .style ⟨[":root"], [("--primary-color", theme.primaryColor),
    ("--secondary-color", theme.secondaryColor), ("--text-dark", "#1f2937"),
    ("--text-light", "#6b7280"), ("--bg-light", "#f9fafb"), ("--border-color", "#e5e7eb")]⟩]

/-- The parts of a page's stylesheet in order, the base sheets given as texts. -/
def parts (base : List (List Char)) (theme : Theme) (animate : Bool) : List (List Char) :=
  base ++ [sheetText (themeSheet theme), sheetText forms] ++
    (if animate then [sheetText animations] else []) ++
    [sheetText reducedMotion, sheetText printing]

/-- The stylesheet of a page on given base sheets. Blank parts are left out. -/
def pageTextOn (base : List (List Char)) (theme : Theme) (animate : Bool) : List Char :=
  Embed.style <| joined "\n\n" <|
    ((parts base theme animate).map Text.trim).filter fun part => !part.isEmpty

/-- The stylesheet of a page. -/
def pageText (theme : Theme) (animate : Bool) : List Char :=
  pageTextOn (baseSheets.map fun s => sheetText s.2) theme animate

end PagePress.Stylesheet
