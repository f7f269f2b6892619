import StrictDdl.Check
import StrictDdl.Conversion
import StrictDdl.Ddl
import StrictDdl.Ddl.OfModel
import StrictDdl.Default
import StrictDdl.Document
import StrictDdl.Document.Load
import StrictDdl.Document.OfModel
import StrictDdl.Document.Reference
import StrictDdl.Document.ToDdl
import StrictDdl.EnumRegistry
import StrictDdl.EnumRegistry.Declared
import StrictDdl.Expr.Basic
import StrictDdl.Expr.Binding
import StrictDdl.Expr.Columns
import StrictDdl.Expr.Render
import StrictDdl.Fault
import StrictDdl.ForeignKey
import StrictDdl.Http
import StrictDdl.Http.Encoding
import StrictDdl.Journal
import StrictDdl.Json.Basic
import StrictDdl.Json.Display
import StrictDdl.Json.Reader
import StrictDdl.Json.Same
import StrictDdl.Json.Writer
import StrictDdl.Lenient
import StrictDdl.Log
import StrictDdl.Log.OfJournal
import StrictDdl.Log.Template
import StrictDdl.Marker
import StrictDdl.Model
import StrictDdl.Model.Build
import StrictDdl.Model.Constraint
import StrictDdl.Model.Data
import StrictDdl.Model.Draft
import StrictDdl.Nesting
import StrictDdl.Numeric.Binary64
import StrictDdl.Numeric.Number
import StrictDdl.Numeric.Reader
import StrictDdl.Numeric.Shortest
import StrictDdl.Numeric.Writer
import StrictDdl.ParseTree.Constant
import StrictDdl.ParseTree.Node
import StrictDdl.ParseTree.Statement
import StrictDdl.ParseTree.TypeName
import StrictDdl.Proofs.Actions
import StrictDdl.Proofs.Agreement
import StrictDdl.Proofs.Calls
import StrictDdl.Proofs.Check.Membership
import StrictDdl.Proofs.Check.Range
import StrictDdl.Proofs.Check.Totality
import StrictDdl.Proofs.Checks
import StrictDdl.Proofs.ConstraintOrder
import StrictDdl.Proofs.Conversion
import StrictDdl.Proofs.Cycles
import StrictDdl.Proofs.Ddl.OfModel
import StrictDdl.Proofs.Defaults
import StrictDdl.Proofs.Document.Chain
import StrictDdl.Proofs.Document.Load
import StrictDdl.Proofs.Document.OfModel
import StrictDdl.Proofs.Document.Path
import StrictDdl.Proofs.Document.Reference
import StrictDdl.Proofs.Document.Reload
import StrictDdl.Proofs.Document.Resolution
import StrictDdl.Proofs.Document.ToDdl
import StrictDdl.Proofs.EnumOrder
import StrictDdl.Proofs.Expr.Closed
import StrictDdl.Proofs.Expr.Constants
import StrictDdl.Proofs.Expr.Dialects
import StrictDdl.Proofs.Expr.Fault
import StrictDdl.Proofs.Expr.Layout
import StrictDdl.Proofs.Expr.Meaning
import StrictDdl.Proofs.Expr.Outline
import StrictDdl.Proofs.Expr.Precedence
import StrictDdl.Proofs.Expr.Tokens
import StrictDdl.Proofs.Expr.Tree
import StrictDdl.Proofs.Fault
import StrictDdl.Proofs.ForeignKeys
import StrictDdl.Proofs.Indexes
import StrictDdl.Proofs.Labels
import StrictDdl.Proofs.Layout
import StrictDdl.Proofs.Model.Agreement
import StrictDdl.Proofs.Model.Build
import StrictDdl.Proofs.Model.Columns
import StrictDdl.Proofs.Model.Constraint
import StrictDdl.Proofs.Model.Effect
import StrictDdl.Proofs.Model.Layout
import StrictDdl.Proofs.Model.Output
import StrictDdl.Proofs.Model.Positions
import StrictDdl.Proofs.Model.Reading
import StrictDdl.Proofs.Model.Resolution
import StrictDdl.Proofs.Model.Statement
import StrictDdl.Proofs.Model.Tables
import StrictDdl.Proofs.Names
import StrictDdl.Proofs.Numeric.Decimal
import StrictDdl.Proofs.Numeric.Rounding
import StrictDdl.Proofs.Numeric.Shortest
import StrictDdl.Proofs.Numeric.Written
import StrictDdl.Proofs.Outcome
import StrictDdl.Proofs.ParseTree.Layout
import StrictDdl.Proofs.Postgres.Reading
import StrictDdl.Proofs.Postgres.Tree
import StrictDdl.Proofs.Postgres.Unambiguous
import StrictDdl.Proofs.Postgres.Words
import StrictDdl.Proofs.Precision
import StrictDdl.Proofs.References
import StrictDdl.Proofs.RoundTrip
import StrictDdl.Proofs.Rules
import StrictDdl.Proofs.Rules.Merge
import StrictDdl.Proofs.Script
import StrictDdl.Proofs.Sql.Literal
import StrictDdl.Proofs.Sql.Truth
import StrictDdl.Proofs.Sqlite.Arithmetic
import StrictDdl.Proofs.Sqlite.Closing
import StrictDdl.Proofs.Sqlite.Cutting
import StrictDdl.Proofs.Sqlite.Grammar
import StrictDdl.Proofs.Sqlite.Identifier
import StrictDdl.Proofs.Sqlite.Meaning
import StrictDdl.Proofs.Sqlite.Parens
import StrictDdl.Proofs.Sqlite.Reader
import StrictDdl.Proofs.Sqlite.Scanning
import StrictDdl.Proofs.Storage
import StrictDdl.Proofs.Text.LetterCase
import StrictDdl.Proofs.Text.Pattern
import StrictDdl.Proofs.Types
import StrictDdl.Proofs.Unsupported
import StrictDdl.Proofs.Validation
import StrictDdl.Proofs.Walk
import StrictDdl.Proofs.Walk.Path
import StrictDdl.RuleSet
import StrictDdl.RuleSet.Data
import StrictDdl.Scalar
import StrictDdl.Settings
import StrictDdl.Sql.Identifier
import StrictDdl.Sql.Literal
import StrictDdl.Sql.Vocabulary
import StrictDdl.SqlType
import StrictDdl.Text.Blank
import StrictDdl.Text.Digit
import StrictDdl.Text.LetterCase
import StrictDdl.Text.LetterCase.Table
import StrictDdl.Text.Printable
import StrictDdl.Walk
