import PagePress.FormBackend
import PagePress.Page

/-!
What the sections of a page know of the page that they stand on.
-/

namespace PagePress.Render

/-- Facts about a page that its sections refer to. -/
structure Context where
  pageId : String
  /-- The build stamp: milliseconds since the epoch. -/
  stamp : Int
  /-- The id of the first content section. -/
  firstContent : Option String
  /-- The id of the first call to action. -/
  firstCallToAction : Option String
  form : FormChoice
  animate : Bool
  deriving Repr

namespace Context

/-- The name of a page and its build that goes along with what a form sends. -/
def pageIdentifier (c : Context) : String := c.pageId ++ "-" ++ toString c.stamp

/-- The context of sections that are already in order. -/
def ofSections (pageId : String) (stamp : Int) (form : FormChoice) (animate : Bool)
    (sections : List Section) : Context where
  pageId
  stamp
  firstContent := sections.findSome? fun s =>
    match s.block with
    | .content _ => some s.id
    | _ => none
  firstCallToAction := sections.findSome? fun s =>
    match s.block with
    | .callToAction _ => some s.id
    | _ => none
  form
  animate

end Context

/-- The id of the form of a section. -/
def formId (sectionId : String) : String := "form-" ++ sectionId

/-- The id of the place where a form reports its state. -/
def messageId (sectionId : String) : String := "form-message-" ++ sectionId

end PagePress.Render
