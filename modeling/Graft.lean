import Graft.Main
import Graft.Session
import Graft.Proofs.Search.Exactness
import Graft.Proofs.Patch.Identity
import Graft.Proofs.Splice.Words
import Graft.Proofs.Respacing
import Graft.Proofs.Lexing.Coverage
import Graft.Proofs.Lexing.Leaves
import Graft.Proofs.Search.Placement
import Graft.Proofs.Search.Scope
import Graft.Proofs.Text.Margin
import Graft.Proofs.Text.PhysicalLines
import Graft.Proofs.Document.Wrapping
import Graft.Proofs.Document.LineShapes
import Graft.Proofs.Search.Excerpt
import Graft.Proofs.CommandLine.Effects
import Graft.Proofs.Session.Nesting
import Graft.Proofs.Lexing.Braces
import Graft.Proofs.Lexing.Cuts
import Graft.Proofs.Search.Ceiling
import Graft.Proofs.Splice.Conservation
import Graft.Proofs.Search.CutLiterals
import Graft.Proofs.Document.Sections
import Graft.Proofs.Text.Returns
import Graft.Proofs.Document.LineEnds
import Graft.Proofs.Splice.Layout
import Graft.Proofs.Splice.Inline
import Graft.Proofs.Search.Anchoring
import Graft.Proofs.Search.Deepening
import Graft.Proofs.Search.Outcome
import Graft.Proofs.Lexing.Comments
import Graft.Proofs.Search.Comments
import Graft.Proofs.Search.Wildcards
import Graft.Proofs.Lexing.Modes
import Graft.Proofs.Lexing.Printed
import Graft.Proofs.Text.ByteOffsets
import Graft.Proofs.Lexing.LoneMarkers
import Graft.Proofs.Lexing.OrderedLeaves
import Graft.Proofs.Text.LineNumbers
import Graft.Proofs.Splice.Styles
import Graft.Proofs.CommandLine.Preservation
import Graft.Proofs.Text.Places
import Graft.Proofs.Text.Encoding
import Graft.Proofs.Text.Percent
import Graft.Proofs.Editor.Selection
import Graft.Proofs.Lexing.Spans
