import RecordFilter.Column.Basic
import RecordFilter.Column.Error
import RecordFilter.Column.Literal
import RecordFilter.Command
import RecordFilter.Config.Basic
import RecordFilter.Config.Decoder
import RecordFilter.Config.Encoder
import RecordFilter.Config.Error
import RecordFilter.Config.Loading
import RecordFilter.Decimal.Basic
import RecordFilter.Decimal.Binary64
import RecordFilter.Decimal.Numeral
import RecordFilter.Decimal.Rounding
import RecordFilter.Decimal.Shortest
import RecordFilter.Dictionary
import RecordFilter.Directive
import RecordFilter.Json.Parser
import RecordFilter.Json.Printer
import RecordFilter.Json.Reader
import RecordFilter.Json.Token
import RecordFilter.Json.Value
import RecordFilter.Main
import RecordFilter.Path.Basic
import RecordFilter.Path.Parser
import RecordFilter.Path.Segment
import RecordFilter.Proofs.Column.Acceptance
import RecordFilter.Proofs.Column.Texts
import RecordFilter.Proofs.Column.Types
import RecordFilter.Proofs.Command
import RecordFilter.Proofs.Config.RoundTrip
import RecordFilter.Proofs.Config.Writing
import RecordFilter.Proofs.Decimal.Numerals
import RecordFilter.Proofs.Decimal.Shortest
import RecordFilter.Proofs.Dictionary
import RecordFilter.Proofs.Directive
import RecordFilter.Proofs.Json.Numerals
import RecordFilter.Proofs.Json.Reading
import RecordFilter.Proofs.Json.Steps
import RecordFilter.Proofs.Json.Trailing
import RecordFilter.Proofs.Json.Value
import RecordFilter.Proofs.Json.Writing
import RecordFilter.Proofs.Outcome
import RecordFilter.Proofs.Path.Grammar
import RecordFilter.Proofs.Path.Prefixes
import RecordFilter.Proofs.Path.Printing
import RecordFilter.Proofs.Schema.Checks
import RecordFilter.Proofs.Schema.Meaning
import RecordFilter.Proofs.Schema.Tables
import RecordFilter.Proofs.Stream.Lines
import RecordFilter.Proofs.Stream.Pipeline
import RecordFilter.Proofs.Stream.Records
import RecordFilter.Proofs.Text.Bytes
import RecordFilter.Proofs.Text.Numerals
import RecordFilter.Proofs.Text.Runs
import RecordFilter.Proofs.Visit.AddedItems
import RecordFilter.Proofs.Visit.Addition
import RecordFilter.Proofs.Visit.Agreement
import RecordFilter.Proofs.Visit.Answers
import RecordFilter.Proofs.Visit.Calls
import RecordFilter.Proofs.Visit.Composition
import RecordFilter.Proofs.Visit.Defaults
import RecordFilter.Proofs.Visit.Fields
import RecordFilter.Proofs.Visit.Idempotence
import RecordFilter.Proofs.Visit.Level
import RecordFilter.Proofs.Visit.MemberOrder
import RecordFilter.Proofs.Visit.Members
import RecordFilter.Proofs.Visit.Nesting
import RecordFilter.Proofs.Visit.Ownership
import RecordFilter.Proofs.Visit.Pruning
import RecordFilter.Proofs.Visit.Recursion
import RecordFilter.Proofs.Visit.Reordering
import RecordFilter.Proofs.Visit.Restriction
import RecordFilter.Proofs.Visit.Results
import RecordFilter.Proofs.Visit.Secrecy
import RecordFilter.Proofs.Visit.Sources
import RecordFilter.Proofs.Visit.Unindexed
import RecordFilter.Proofs.Visit.Unnameable
import RecordFilter.Schema.Basic
import RecordFilter.Schema.Compile
import RecordFilter.Schema.Rewrite
import RecordFilter.Schema.Visit
import RecordFilter.Stream.Lines
import RecordFilter.Stream.Records
import RecordFilter.Text.Blank
import RecordFilter.Text.Hidden
import RecordFilter.Text.Numeral
import RecordFilter.Text.Utf8
import RecordFilter.Text.Visible
