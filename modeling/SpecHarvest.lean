import SpecHarvest.Files.Tree
import SpecHarvest.Main
import SpecHarvest.Source.Cursor
import SpecHarvest.Source.Position
import SpecHarvest.Proofs.Text.Collapse
import SpecHarvest.Proofs.Assertion.Span
import SpecHarvest.Proofs.Assertion.Write
import SpecHarvest.Proofs.Extraction.Outcome
import SpecHarvest.Proofs.Extraction.Splitting
import SpecHarvest.Proofs.Source.Keyword
import SpecHarvest.Proofs.RequestExpr.Search
import SpecHarvest.Proofs.Extraction.ReadOnly
import SpecHarvest.Proofs.Block.Leaf
import SpecHarvest.Proofs.Block.Segment
import SpecHarvest.Proofs.Extraction.Writing
import SpecHarvest.Proofs.Extraction.OneAssertion
import SpecHarvest.Proofs.Source.Literal
import SpecHarvest.Proofs.RequestExpr.Literal
import SpecHarvest.Proofs.Json.Numeral
import SpecHarvest.Proofs.Json.String
import SpecHarvest.Proofs.Assoc
import SpecHarvest.Proofs.Json.Value
import SpecHarvest.Proofs.Json.Scan
import SpecHarvest.Proofs.Document.Reading
import SpecHarvest.Proofs.Extraction.Document
import SpecHarvest.Proofs.Json.Compare
import SpecHarvest.Proofs.ExpectedExpr.Body
import SpecHarvest.Proofs.Replay.Agreement
import SpecHarvest.Proofs.Extraction.Account
import SpecHarvest.Proofs.Extraction.Append
import SpecHarvest.Proofs.Text.Padding
import SpecHarvest.Proofs.Source.Delimiter
import SpecHarvest.Proofs.Source.Padding
import SpecHarvest.Proofs.ExpectedExpr.Literal
import SpecHarvest.Proofs.Assertion.Padding
import SpecHarvest.Proofs.Block.Comment
import SpecHarvest.Proofs.Extraction.Comment
import SpecHarvest.Proofs.Bytes.Offset
import SpecHarvest.Proofs.Bytes.Scan
import SpecHarvest.Proofs.Bytes.Comment
import SpecHarvest.Proofs.Bytes.Cursor
import SpecHarvest.Proofs.Bytes.Header
import SpecHarvest.Proofs.Bytes.Keyword
import SpecHarvest.Proofs.Bytes.Matcher
import SpecHarvest.Proofs.Bytes.Json
import SpecHarvest.Proofs.Bytes.Request
import SpecHarvest.Proofs.Bytes.Expected
import SpecHarvest.Proofs.Bytes.Segment
import SpecHarvest.Proofs.Bytes.Span
import SpecHarvest.Proofs.Bytes.Extraction
import SpecHarvest.Proofs.Extraction.WellFormed
import SpecHarvest.Proofs.Document.Normal
import SpecHarvest.Proofs.Files.Tree
import SpecHarvest.Proofs.Files.Names
import SpecHarvest.Proofs.Files.Harvest
import SpecHarvest.Proofs.Files.WellFormed
import SpecHarvest.Proofs.Files.Documents
import SpecHarvest.Proofs.Json.Accepted
import SpecHarvest.Proofs.Json.Rendering
import SpecHarvest.Proofs.Json.Relaxed
import SpecHarvest.Proofs.ExpectedExpr.Status
import SpecHarvest.Proofs.Replay.Run
import SpecHarvest.Proofs.Replay.Tap
import SpecHarvest.Proofs.Source.Nested
import SpecHarvest.Proofs.Source.Reader
import SpecHarvest.Proofs.HeaderExpr.Written
import SpecHarvest.Proofs.RequestExpr.General
import SpecHarvest.Proofs.HeaderExpr.Bare
import SpecHarvest.Proofs.RequestExpr.BareCall
import SpecHarvest.Proofs.Json.Spacing
import SpecHarvest.Proofs.RequestExpr.QuasiBody
import SpecHarvest.Proofs.ExpectedExpr.Unclosed
import SpecHarvest.Proofs.HeaderExpr.Named
import SpecHarvest.Proofs.HeaderMatcher.Written
import SpecHarvest.Proofs.ExpectedExpr.Record
import SpecHarvest.Proofs.ExpectedExpr.RecordOrder
import SpecHarvest.Proofs.RequestExpr.Body
import SpecHarvest.Proofs.HeaderExpr.Chain
import SpecHarvest.Proofs.Json.Equality
import SpecHarvest.Proofs.Json.Rounding
import SpecHarvest.Proofs.Json.Stuck
import SpecHarvest.Proofs.Json.SingleQuotes
import SpecHarvest.Proofs.ConfigMap.Lookup
import SpecHarvest.Proofs.ConfigMap.Listed
import SpecHarvest.Proofs.Extraction.Descriptions
import SpecHarvest.Proofs.Block.Binding
import SpecHarvest.Proofs.Extraction.NamedHeaders
import SpecHarvest.Proofs.Files.Unreadable
import SpecHarvest.Proofs.Replay.Wire
import SpecHarvest.Proofs.HeaderList
import SpecHarvest.Proofs.Assertion.Division
import SpecHarvest.Proofs.Source.CommentStart
import SpecHarvest.Proofs.Source.TopLevel
import SpecHarvest.Proofs.Bytes.Matching
import SpecHarvest.Proofs.Source.Quoted
import SpecHarvest.Proofs.Source.Cursor
import SpecHarvest.Proofs.Bytes.Place
import SpecHarvest.Proofs.RequestExpr.Pattern
import SpecHarvest.Proofs.Json.BareKey
