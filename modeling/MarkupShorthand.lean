import MarkupShorthand.Expectation
import MarkupShorthand.Main
import MarkupShorthand.Proofs.Abbreviation.Acceptance
import MarkupShorthand.Proofs.Abbreviation.Budget
import MarkupShorthand.Proofs.Abbreviation.Continuation
import MarkupShorthand.Proofs.Abbreviation.Elements
import MarkupShorthand.Proofs.Abbreviation.Items
import MarkupShorthand.Proofs.Abbreviation.Log
import MarkupShorthand.Proofs.Abbreviation.Nesting
import MarkupShorthand.Proofs.Abbreviation.Offsets
import MarkupShorthand.Proofs.Abbreviation.Places
import MarkupShorthand.Proofs.Abbreviation.Separators
import MarkupShorthand.Proofs.Abbreviation.Size
import MarkupShorthand.Proofs.Abbreviation.Spans
import MarkupShorthand.Proofs.Arena.Ancestors
import MarkupShorthand.Proofs.Arena.Climb
import MarkupShorthand.Proofs.Arena.DeepCopy
import MarkupShorthand.Proofs.Arena.Edits
import MarkupShorthand.Proofs.Arena.GroupCopies
import MarkupShorthand.Proofs.Arena.Leaves
import MarkupShorthand.Proofs.Arena.Rows
import MarkupShorthand.Proofs.Arena.Traversal
import MarkupShorthand.Proofs.Attributes
import MarkupShorthand.Proofs.CommandLine.Caret
import MarkupShorthand.Proofs.CommandLine.Outcomes
import MarkupShorthand.Proofs.Formats
import MarkupShorthand.Proofs.Json.Elements
import MarkupShorthand.Proofs.Layout
import MarkupShorthand.Proofs.Markup.Enumeration
import MarkupShorthand.Proofs.Markup.Marks
import MarkupShorthand.Proofs.Markup.Recursion
import MarkupShorthand.Proofs.Markup.Shape
import MarkupShorthand.Proofs.Markup.TabStops
import MarkupShorthand.Proofs.Outline
import MarkupShorthand.Proofs.Placeholders
import MarkupShorthand.Proofs.Settings.Layers
