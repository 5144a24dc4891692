import PagePress.Inventory
import PagePress.Json.Reader
import PagePress.Main
import PagePress.Proofs.Checksum
import PagePress.Proofs.Command.Warnings
import PagePress.Proofs.Compile
import PagePress.Proofs.Compile.Clock
import PagePress.Proofs.Compile.Failure
import PagePress.Proofs.Compile.Forms
import PagePress.Proofs.Compile.Revised
import PagePress.Proofs.Compile.Sections
import PagePress.Proofs.Compile.Snippets
import PagePress.Proofs.Compile.Stable
import PagePress.Proofs.Compile.Structure
import PagePress.Proofs.Compile.Style
import PagePress.Proofs.Compile.Warnings
import PagePress.Proofs.Embed.Script
import PagePress.Proofs.Inspect.Balance
import PagePress.Proofs.Inspect.Descriptions
import PagePress.Proofs.Page.Acceptance
import PagePress.Proofs.Page.Normal
import PagePress.Proofs.Reduce.StartTags
import PagePress.Proofs.Render.Distinct
import PagePress.Proofs.Render.Layout
import PagePress.Proofs.Render.Paragraphs
import PagePress.Proofs.Script.Lexemes
import PagePress.Proofs.Script.Template
import PagePress.Proofs.Settings
import PagePress.Proofs.Shield.Blanks
import PagePress.Proofs.Shield.Comments
import PagePress.Proofs.Shield.Images
import PagePress.Proofs.Shield.Preformatted
import PagePress.Proofs.Shield.Woven
import PagePress.Proofs.Stylesheet.Content
