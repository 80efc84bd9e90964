import SchemaLedger.Calendar
import SchemaLedger.Command.Arguments
import SchemaLedger.Command.Basic
import SchemaLedger.Command.Report
import SchemaLedger.Command.Run
import SchemaLedger.Comparison
import SchemaLedger.Connection.Config
import SchemaLedger.Connection.Fault
import SchemaLedger.Connection.Url
import SchemaLedger.Console.Table
import SchemaLedger.Console.Wrap
import SchemaLedger.Decimal.Double
import SchemaLedger.Decimal.Layout
import SchemaLedger.Decimal.Shortest
import SchemaLedger.Error
import SchemaLedger.Error.Report
import SchemaLedger.Json.Printer
import SchemaLedger.Json.Reader
import SchemaLedger.Main
import SchemaLedger.Migration.Batch
import SchemaLedger.Migration.Diff
import SchemaLedger.Migration.Fault
import SchemaLedger.Migration.History
import SchemaLedger.Migration.HistoryTable
import SchemaLedger.Migration.Sorter
import SchemaLedger.Migration.Step
import SchemaLedger.Proofs.Calendar
import SchemaLedger.Proofs.Command.MakeMigration
import SchemaLedger.Proofs.Connection.Address
import SchemaLedger.Proofs.Decimal.Rounding
import SchemaLedger.Proofs.Decimal.Shortest
import SchemaLedger.Proofs.Entries
import SchemaLedger.Proofs.Json.Lines
import SchemaLedger.Proofs.Json.Number
import SchemaLedger.Proofs.Json.RoundTrip
import SchemaLedger.Proofs.Json.Scan
import SchemaLedger.Proofs.Json.Stored
import SchemaLedger.Proofs.Json.Text
import SchemaLedger.Proofs.Keyed
import SchemaLedger.Proofs.Migration.Agreement
import SchemaLedger.Proofs.Migration.Convergence
import SchemaLedger.Proofs.Migration.DependencyOrder
import SchemaLedger.Proofs.Migration.DiffPlan
import SchemaLedger.Proofs.Migration.DiffReplay
import SchemaLedger.Proofs.Migration.DiffSteps
import SchemaLedger.Proofs.Migration.Differ
import SchemaLedger.Proofs.Migration.Effect
import SchemaLedger.Proofs.Migration.Erasure
import SchemaLedger.Proofs.Migration.File
import SchemaLedger.Proofs.Migration.Fit
import SchemaLedger.Proofs.Migration.History
import SchemaLedger.Proofs.Migration.Inverse
import SchemaLedger.Proofs.Migration.Keeping
import SchemaLedger.Proofs.Migration.KeyChange
import SchemaLedger.Proofs.Migration.Likeness
import SchemaLedger.Proofs.Migration.Part
import SchemaLedger.Proofs.Migration.Proposal
import SchemaLedger.Proofs.Migration.Queue
import SchemaLedger.Proofs.Migration.Rearrangement
import SchemaLedger.Proofs.Migration.Recorded
import SchemaLedger.Proofs.Migration.Refinement
import SchemaLedger.Proofs.Migration.Replay
import SchemaLedger.Proofs.Migration.Shape
import SchemaLedger.Proofs.Migration.Sorter
import SchemaLedger.Proofs.Migration.Supplied
import SchemaLedger.Proofs.Migration.Survival
import SchemaLedger.Proofs.Migration.Targets
import SchemaLedger.Proofs.Migration.Undoing
import SchemaLedger.Proofs.Outcome
import SchemaLedger.Proofs.Paired
import SchemaLedger.Proofs.Query.Acceptance
import SchemaLedger.Proofs.Query.Aliases
import SchemaLedger.Proofs.Query.Correctness
import SchemaLedger.Proofs.Query.FromClause
import SchemaLedger.Proofs.Query.Grammar
import SchemaLedger.Proofs.Query.Join
import SchemaLedger.Proofs.Query.Literals
import SchemaLedger.Proofs.Query.Lookup
import SchemaLedger.Proofs.Query.Meaning
import SchemaLedger.Proofs.Query.Membership
import SchemaLedger.Proofs.Query.Path
import SchemaLedger.Proofs.Query.Related
import SchemaLedger.Proofs.Query.Shape
import SchemaLedger.Proofs.Query.Statement
import SchemaLedger.Proofs.Record.Handle
import SchemaLedger.Proofs.Record.Insertion
import SchemaLedger.Proofs.Schema.Declarations
import SchemaLedger.Proofs.Schema.Equivalence
import SchemaLedger.Proofs.Schema.Reading
import SchemaLedger.Proofs.Schema.Soundness
import SchemaLedger.Proofs.Session.Application
import SchemaLedger.Proofs.Session.Archive
import SchemaLedger.Proofs.Session.Atomicity
import SchemaLedger.Proofs.Session.Bracket
import SchemaLedger.Proofs.Session.Calls
import SchemaLedger.Proofs.Session.Convergence
import SchemaLedger.Proofs.Session.Database
import SchemaLedger.Proofs.Session.Enclosed
import SchemaLedger.Proofs.Session.Exchange
import SchemaLedger.Proofs.Session.FirstSave
import SchemaLedger.Proofs.Session.Frame
import SchemaLedger.Proofs.Session.Granted
import SchemaLedger.Proofs.Session.Inserting
import SchemaLedger.Proofs.Session.Ledger
import SchemaLedger.Proofs.Session.Lending
import SchemaLedger.Proofs.Session.Lifecycle
import SchemaLedger.Proofs.Session.Linking
import SchemaLedger.Proofs.Session.Links
import SchemaLedger.Proofs.Session.Loading
import SchemaLedger.Proofs.Session.Memory
import SchemaLedger.Proofs.Session.Notebook
import SchemaLedger.Proofs.Session.Nulls
import SchemaLedger.Proofs.Session.Overwriting
import SchemaLedger.Proofs.Session.Preview
import SchemaLedger.Proofs.Session.Race
import SchemaLedger.Proofs.Session.Rejection
import SchemaLedger.Proofs.Session.Remembering
import SchemaLedger.Proofs.Session.Run
import SchemaLedger.Proofs.Session.Saving
import SchemaLedger.Proofs.Session.Script
import SchemaLedger.Proofs.Session.Storing
import SchemaLedger.Proofs.Session.Transaction
import SchemaLedger.Proofs.Session.Transcript
import SchemaLedger.Proofs.Sql.Affinity
import SchemaLedger.Proofs.Sql.Alteration
import SchemaLedger.Proofs.Sql.Binding
import SchemaLedger.Proofs.Sql.Catalog
import SchemaLedger.Proofs.Sql.Change
import SchemaLedger.Proofs.Sql.Conversion
import SchemaLedger.Proofs.Sql.Creation
import SchemaLedger.Proofs.Sql.Ddl
import SchemaLedger.Proofs.Sql.Definition
import SchemaLedger.Proofs.Sql.Document
import SchemaLedger.Proofs.Sql.Effect
import SchemaLedger.Proofs.Sql.Equivalence
import SchemaLedger.Proofs.Sql.Evaluation
import SchemaLedger.Proofs.Sql.Expression
import SchemaLedger.Proofs.Sql.Feasibility
import SchemaLedger.Proofs.Sql.Layout
import SchemaLedger.Proofs.Sql.Literal
import SchemaLedger.Proofs.Sql.Naming
import SchemaLedger.Proofs.Sql.Numeral
import SchemaLedger.Proofs.Sql.Parameters
import SchemaLedger.Proofs.Sql.Quoting
import SchemaLedger.Proofs.Sql.ReadingBack
import SchemaLedger.Proofs.Sql.Rendering
import SchemaLedger.Proofs.Sql.Replacement
import SchemaLedger.Proofs.Sql.Scoping
import SchemaLedger.Proofs.Sql.Stored
import SchemaLedger.Proofs.Sql.Table
import SchemaLedger.Proofs.Sql.Template
import SchemaLedger.Proofs.Text.Hex
import SchemaLedger.Proofs.Value.Agreement
import SchemaLedger.Proofs.Value.Sameness
import SchemaLedger.Proofs.Value.Texts
import SchemaLedger.Query.Compile
import SchemaLedger.Query.Expr
import SchemaLedger.Query.Fault
import SchemaLedger.Query.Path
import SchemaLedger.Query.Plan
import SchemaLedger.Record.Fault
import SchemaLedger.Record.Handle
import SchemaLedger.Schema.Basic
import SchemaLedger.Schema.Checked
import SchemaLedger.Schema.Description
import SchemaLedger.Schema.Entity
import SchemaLedger.Schema.Fault
import SchemaLedger.Schema.Field
import SchemaLedger.Schema.Issue
import SchemaLedger.Schema.LogicalType
import SchemaLedger.Session.Basic
import SchemaLedger.Session.Migration
import SchemaLedger.Session.Pool
import SchemaLedger.Session.Record
import SchemaLedger.Session.Request
import SchemaLedger.Session.Transaction
import SchemaLedger.Sql.Binding
import SchemaLedger.Sql.Condition
import SchemaLedger.Sql.Conversion
import SchemaLedger.Sql.Ddl
import SchemaLedger.Sql.Dialect
import SchemaLedger.Sql.Fragment
import SchemaLedger.Sql.From
import SchemaLedger.Sql.Identifier
import SchemaLedger.Sql.Literal
import SchemaLedger.Sql.Select
import SchemaLedger.Sql.Table
import SchemaLedger.Sql.Template
import SchemaLedger.Sql.Type
import SchemaLedger.Sql.Write
import SchemaLedger.Text.Parts
import SchemaLedger.Text.Percent
import SchemaLedger.Text.Printable
import SchemaLedger.Text.Quoted
import SchemaLedger.Text.Word
import SchemaLedger.Uuid
import SchemaLedger.Value
import SchemaLedger.Value.Display
