import SourceView.Document
import SourceView.Domain
import SourceView.Double
import SourceView.Encoding
import SourceView.Encoding.Bytewise
import SourceView.Encoding.Decoded
import SourceView.Encoding.Utf16
import SourceView.Encoding.Utf32
import SourceView.Encoding.Utf8
import SourceView.Exclusion
import SourceView.Exclusion.Sweep
import SourceView.Fault
import SourceView.Host
import SourceView.Inspect
import SourceView.Inspect.OffsetTable
import SourceView.Inspect.Options
import SourceView.Journal
import SourceView.Journal.Record
import SourceView.LineEnd
import SourceView.Main
import SourceView.Path
import SourceView.Pattern
import SourceView.Pattern.Matcher
import SourceView.Pattern.Reader
import SourceView.Pattern.Syntax
import SourceView.Proofs.Atoms
import SourceView.Proofs.Batch
import SourceView.Proofs.Building
import SourceView.Proofs.Canonical
import SourceView.Proofs.Cells
import SourceView.Proofs.Checks
import SourceView.Proofs.Conceal
import SourceView.Proofs.Contiguous
import SourceView.Proofs.Cutting
import SourceView.Proofs.Decoding
import SourceView.Proofs.Derivation
import SourceView.Proofs.Determined
import SourceView.Proofs.DocumentOrder
import SourceView.Proofs.Edited
import SourceView.Proofs.Exclude
import SourceView.Proofs.Faithful
import SourceView.Proofs.Grounded
import SourceView.Proofs.JoinedCells
import SourceView.Proofs.JoinedText
import SourceView.Proofs.Joining
import SourceView.Proofs.LineFeeds
import SourceView.Proofs.LineRuns
import SourceView.Proofs.Loading
import SourceView.Proofs.Locality
import SourceView.Proofs.Merging
import SourceView.Proofs.Offset
import SourceView.Proofs.Outcome
import SourceView.Proofs.Passing
import SourceView.Proofs.Placed
import SourceView.Proofs.RangeRoundTrip
import SourceView.Proofs.RangeTranslation
import SourceView.Proofs.Remarking
import SourceView.Proofs.Rendering
import SourceView.Proofs.Retained
import SourceView.Proofs.RoundTrip
import SourceView.Proofs.Scanning
import SourceView.Proofs.Settings
import SourceView.Proofs.Setups
import SourceView.Proofs.ShownCells
import SourceView.Proofs.ShownSource
import SourceView.Proofs.Split
import SourceView.Proofs.Stripping
import SourceView.Proofs.Sweep
import SourceView.Proofs.Tidy
import SourceView.Proofs.Tiling
import SourceView.Proofs.Trimming
import SourceView.Proofs.Uncovered
import SourceView.Range
import SourceView.Range.Loose
import SourceView.Recipe
import SourceView.Recipe.Lines
import SourceView.Report
import SourceView.Search
import SourceView.Sorted
import SourceView.Source
import SourceView.Span
import SourceView.Storage
import SourceView.Text.Aligned
import SourceView.Text.Alphanumeric
import SourceView.Text.Blank
import SourceView.Text.Case
import SourceView.Text.Codes
import SourceView.Text.Digit
import SourceView.Text.Numeral
import SourceView.Text.Quoted
import SourceView.Text.Slice
import SourceView.Token
import SourceView.Token.Canonical
import SourceView.View
import SourceView.View.Hide
import SourceView.View.Join
import SourceView.View.Offset
import SourceView.View.Unknown
