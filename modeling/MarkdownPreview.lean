import MarkdownPreview.CommandLine.Arguments
import MarkdownPreview.CommandLine.Help
import MarkdownPreview.CommandLine.Run
import MarkdownPreview.Config.Basic
import MarkdownPreview.Config.Format
import MarkdownPreview.Config.Store
import MarkdownPreview.Decoration.Basic
import MarkdownPreview.Decoration.Filter
import MarkdownPreview.Decoration.Kind
import MarkdownPreview.Json.Basic
import MarkdownPreview.Json.Convert
import MarkdownPreview.Json.Read
import MarkdownPreview.Json.RoundTrip
import MarkdownPreview.Latex.Alphabet
import MarkdownPreview.Latex.Scan
import MarkdownPreview.Latex.Substitution
import MarkdownPreview.Latex.Symbol
import MarkdownPreview.Main
import MarkdownPreview.Markdown.Block
import MarkdownPreview.Markdown.Container
import MarkdownPreview.Markdown.Cursor
import MarkdownPreview.Markdown.Document
import MarkdownPreview.Markdown.Emphasis
import MarkdownPreview.Markdown.Event
import MarkdownPreview.Markdown.Html
import MarkdownPreview.Markdown.Inline
import MarkdownPreview.Markdown.Link
import MarkdownPreview.Markdown.Marker
import MarkdownPreview.Markdown.Token
import MarkdownPreview.Options
import MarkdownPreview.Preview
import MarkdownPreview.Proofs.Decoration.Coverage
import MarkdownPreview.Proofs.Decoration.Extent
import MarkdownPreview.Proofs.Decoration.Reveal
import MarkdownPreview.Proofs.Decoration.Shift
import MarkdownPreview.Proofs.Latex.Placement
import MarkdownPreview.Proofs.Latex.Shift
import MarkdownPreview.Proofs.Preview.Headings
import MarkdownPreview.Proofs.Preview.Ownership
import MarkdownPreview.Proofs.Selection.Cover
import MarkdownPreview.Proofs.Syntax.BracketOrigin
import MarkdownPreview.Proofs.Syntax.BracketScan
import MarkdownPreview.Proofs.Syntax.BracketShift
import MarkdownPreview.Proofs.Syntax.Pieces
import MarkdownPreview.Proofs.Text.Lines
import MarkdownPreview.Proofs.Text.Occurrence
import MarkdownPreview.Proofs.Text.Prefix
import MarkdownPreview.Proofs.Text.Sorting
import MarkdownPreview.Proofs.Writer.BracketLayer
import MarkdownPreview.Proofs.Writer.Constructs
import MarkdownPreview.Proofs.Writer.Fits
import MarkdownPreview.Proofs.Writer.Links
import MarkdownPreview.Proofs.Writer.MathLayer
import MarkdownPreview.Proofs.Writer.Origin
import MarkdownPreview.Proofs.Writer.Sequence
import MarkdownPreview.Proofs.Writer.Shift
import MarkdownPreview.Proofs.Writer.ShiftedRun
import MarkdownPreview.Proofs.Writer.Slices
import MarkdownPreview.Proofs.Writer.Totality
import MarkdownPreview.Selection.Basic
import MarkdownPreview.Selection.Notation
import MarkdownPreview.Session
import MarkdownPreview.Syntax.BracketMath
import MarkdownPreview.Syntax.Fence
import MarkdownPreview.Syntax.Heading
import MarkdownPreview.Syntax.Marker
import MarkdownPreview.Text.Blank
import MarkdownPreview.Text.CaseFold
import MarkdownPreview.Text.Ink
import MarkdownPreview.Text.Line
import MarkdownPreview.Text.Numeral
import MarkdownPreview.Text.Offset
import MarkdownPreview.Text.Punctuation
import MarkdownPreview.Text.Span
import MarkdownPreview.Text.StableSort
import MarkdownPreview.Toml.Print
import MarkdownPreview.Toml.Read
import MarkdownPreview.Toml.Scalar
import MarkdownPreview.Toml.Text
import MarkdownPreview.Toml.Value
import MarkdownPreview.Writer.Basic
import MarkdownPreview.Writer.Emission
import MarkdownPreview.Writer.Frame
import MarkdownPreview.Proofs.Session.History
import MarkdownPreview.Proofs.Latex.Rendering
import MarkdownPreview.Proofs.Writer.MathRendering
import MarkdownPreview.Proofs.Latex.CarriageReturn
import MarkdownPreview.Proofs.Syntax.CarriageReturn
import MarkdownPreview.Proofs.Markdown.Cursor
import MarkdownPreview.Proofs.Markdown.BlockEvents
import MarkdownPreview.Proofs.Writer.CarriageReturn
import MarkdownPreview.Proofs.Markdown.FencedCode
import MarkdownPreview.Proofs.Syntax.FencedCode
import MarkdownPreview.Proofs.Preview.CodeBlocks
import MarkdownPreview.Proofs.Writer.PlainMath
import MarkdownPreview.Proofs.CommandLine.Console
import MarkdownPreview.Proofs.CommandLine.Decorate
import MarkdownPreview.Proofs.Config.Json
import MarkdownPreview.Proofs.Config.RoundTrip
import MarkdownPreview.Proofs.Decoration.Json
import MarkdownPreview.Proofs.Syntax.BracketGreedy
import MarkdownPreview.Proofs.Markdown.Forest
import MarkdownPreview.Proofs.Writer.LinkText
import MarkdownPreview.Proofs.Markdown.HeadingLines
import MarkdownPreview.Proofs.Writer.Surroundings
import MarkdownPreview.Proofs.Preview.Surroundings
import MarkdownPreview.Proofs.Decoration.Restriction
import MarkdownPreview.Proofs.Writer.Delimiters
import MarkdownPreview.Proofs.Preview.Quotations
import MarkdownPreview.Proofs.Latex.Overlaps
import MarkdownPreview.Proofs.Latex.Starts
import MarkdownPreview.Proofs.Latex.Boundary
import MarkdownPreview.Proofs.Selection.Grammar
import MarkdownPreview.Proofs.Syntax.QuotedLines
import MarkdownPreview.Proofs.Text.Coordinates
