import Upsert.Batch
import Upsert.Calendar.Date
import Upsert.Calendar.Moment
import Upsert.Calendar.Reading
import Upsert.Command.Arguments
import Upsert.Form.Batch
import Upsert.Command.Environment
import Upsert.Command.Run
import Upsert.Connection.Address
import Upsert.Connection.Error
import Upsert.Connection.Link
import Upsert.Connection.Opening
import Upsert.Connection.Reading
import Upsert.Connection.Scripted
import Upsert.Connection.Settings
import Upsert.Connection.Url
import Upsert.Engine.Key
import Upsert.Engine.Upserter
import Upsert.Expression
import Upsert.Form.Expression
import Upsert.Form.Outcome
import Upsert.Form.Reader
import Upsert.Form.Value
import Upsert.Items
import Upsert.Json.Basic
import Upsert.Json.Outline
import Upsert.Main
import Upsert.Number.Binary
import Upsert.Number.Decimal
import Upsert.Number.Numeric
import Upsert.Number.Reading
import Upsert.Number.Shortest
import Upsert.Row
import Upsert.Plan.Arbiter
import Upsert.Plan.Lowering
import Upsert.Plan.Statement
import Upsert.Proofs.Except
import Upsert.Proofs.Key.Checker
import Upsert.Proofs.Key.Lookup
import Upsert.Proofs.Key.Shape
import Upsert.Proofs.Key.Table
import Upsert.Proofs.Reconciliation.Attribution
import Upsert.Proofs.Reconciliation.Exactness
import Upsert.Proofs.Reconciliation.Matching
import Upsert.Proofs.Reconciliation.Order
import Upsert.Proofs.Reconciliation.Prepared
import Upsert.Proofs.Row
import Upsert.Proofs.Value.Equality
import Upsert.Proofs.Value.Kind
import Upsert.Sql.Insert
import Upsert.Sql.Term
import Upsert.Sql.Token
import Upsert.Text.Basic
import Upsert.Text.Dictionary
import Upsert.Text.Digits
import Upsert.Text.Escaped
import Upsert.Text.Utf8
import Upsert.Uuid
import Upsert.Value.Basic
import Upsert.Value.Canonical
import Upsert.Value.Text
import Upsert.Wire.ColumnType
import Upsert.Wire.Decode
import Upsert.Wire.Encode
import Upsert.Wire.Error
import Upsert.Wire.Hstore
import Upsert.Wire.Numeric
import Upsert.Wire.Octets
import Upsert.Proofs.Text.Dictionary
import Upsert.Proofs.Text.Utf8
import Upsert.Proofs.Wire.Hstore
import Upsert.Proofs.Binding.Found
import Upsert.Proofs.Binding.Entry
import Upsert.Proofs.Binding.Text
import Upsert.Proofs.Binding.Timestamp
import Upsert.Proofs.Number.Decimal
import Upsert.Proofs.Wire.Numeric
import Upsert.Proofs.Number.Spelling
import Upsert.Proofs.Number.Cut
import Upsert.Proofs.Number.Numeric
import Upsert.Proofs.Number.Reading
import Upsert.Proofs.Binding.Number
import Upsert.Proofs.Sql.Evaluation
import Upsert.Proofs.Plan.Statement
import Upsert.Proofs.Plan.KeyKept
import Upsert.Proofs.Sql.Lexeme
import Upsert.Proofs.Sql.Legible
import Upsert.Proofs.Sql.Insertion
import Upsert.Proofs.Sql.Numbering
import Upsert.Proofs.Plan.Parameters
import Upsert.Proofs.Server.Execution
import Upsert.Proofs.Server.Keys
import Upsert.Proofs.Server.Runs
import Upsert.Proofs.Server.Answers
import Upsert.Proofs.Server.Repetition
import Upsert.Proofs.Plan.Lowering
import Upsert.Proofs.Plan.Arbiter
import Upsert.Proofs.Server.Returning
import Upsert.Proofs.Sql.Grammar
import Upsert.Proofs.Sql.Shape
import Upsert.Proofs.Plan.Quoting
import Upsert.Proofs.Plan.Acceptance
import Upsert.Proofs.Engine.Calls
import Upsert.Proofs.Wire.HstoreFormat
import Upsert.Proofs.Form.Reader
import Upsert.Proofs.Uuid
import Upsert.Proofs.Number.Rereading
import Upsert.Proofs.Calendar.Civil
import Upsert.Proofs.Calendar.Reading
import Upsert.Proofs.Form.Value
import Upsert.Proofs.Form.Expression
import Upsert.Proofs.Form.Batch
import Upsert.Proofs.Form.RoundTrip
import Upsert.Proofs.Plan.Updating
import Upsert.Proofs.Engine.Columns
import Upsert.Proofs.Binding.Scalar
import Upsert.Proofs.Number.Pattern
import Upsert.Proofs.Number.Single
import Upsert.Proofs.Binding.Single
import Upsert.Proofs.Sql.Rereading
import Upsert.Proofs.Value.Document
import Upsert.Proofs.Server.PrimaryKey
import Upsert.Proofs.Value.Canonical
import Upsert.Proofs.Row.Making
import Upsert.Proofs.Engine.Rearrangement
import Upsert.Proofs.Key.Repetition
import Upsert.Proofs.Text.Blank
import Upsert.Proofs.Text.Lines
import Upsert.Proofs.Command.Environment
import Upsert.Proofs.Sql.Literal
import Upsert.Proofs.Literal.Escape
import Upsert.Proofs.Literal.Array
import Upsert.Proofs.Literal.Map
import Upsert.Proofs.Literal.Thinned
import Upsert.Proofs.Literal.Value
