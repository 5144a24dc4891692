/-!
Rules of a stylesheet and how they are written: one selector and one declaration a line, two
spaces deeper inside a group, and a blank line between two rules.
-/

namespace PagePress.Stylesheet

/-- A rule: the selectors it is for, and properties with their values. -/
structure Rule where
  selectors : List String
  declarations : List (String × String)
  deriving DecidableEq, Repr

/-- A rule on its own, rules for some media, or the frames of an animation. -/
inductive Item where
  | style (rule : Rule)
  | media (condition : String) (rules : List Rule)
  | keyframes (name : String) (frames : List Rule)
  deriving DecidableEq, Repr

/-- A list of texts with a separator between two of them. -/
def joined (separator : String) (texts : List (List Char)) : List Char :=
  List.intercalate separator.toList texts

/-- A declaration on a line of its own. -/
def declarationText (indent : List Char) (d : String × String) : List Char :=
  indent ++ "  ".toList ++ d.1.toList ++ ": ".toList ++ d.2.toList ++ ";\n".toList

/-- The text of a rule behind an indent. -/
def Rule.text (indent : List Char) (r : Rule) : List Char :=
  joined ",\n" (r.selectors.map fun s => indent ++ s.toList) ++ " \x7b\n".toList ++
    r.declarations.flatMap (declarationText indent) ++ indent ++ ['\x7d']

/-- A group of rules under a heading. -/
def groupText (heading separator : String) (rules : List Rule) : List Char :=
  heading.toList ++ " \x7b\n".toList ++ joined separator (rules.map (Rule.text "  ".toList)) ++
    "\n\x7d".toList

def Item.text : Item → List Char
  | style rule => rule.text []
  | media condition rules => groupText ("@media " ++ condition) "\n\n" rules
  | keyframes name frames => groupText ("@keyframes " ++ name) "\n" frames

/-- The text of a stylesheet. -/
def sheetText (items : List Item) : List Char := joined "\n\n" (items.map Item.text) ++ ['\n']

end PagePress.Stylesheet
