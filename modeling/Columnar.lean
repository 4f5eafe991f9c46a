import Columnar.Text.Blank
import Columnar.Text.Case
import Columnar.Text.Quoted
import Columnar.Text.Alphanumeric
import Columnar.Text.Visible
import Columnar.Number.Shortest
import Columnar.Number.Decimal
import Columnar.Json.Printer
import Columnar.Json.Parser
import Columnar.Calendar
import Columnar.DataType.Schema
import Columnar.HostType
import Columnar.Literal.Printer
import Columnar.Expr.Basic
import Columnar.Expr.Printer
import Columnar.Expr.Reference
import Columnar.Qualify.Basic
import Columnar.Literal.Host
import Columnar.Record.Descriptor
import Columnar.Record.Shape
import Columnar.Record.Binding
import Columnar.Record.Definition
import Columnar.Record.Migration
import Columnar.Config.Basic
import Columnar.Column.Lambda
import Columnar.Column.Type
import Columnar.Column.ShapeCache
import Columnar.Column.Form
import Columnar.Column.Method
import Columnar.Column.Term
import Columnar.Column.Eval
import Columnar.Column.Statement
import Columnar.Record.Schema
import Columnar.Frame
import Columnar.Literal.Json
import Columnar.Expr.Json
import Columnar.Column.Name
import Columnar.Column.Json
import Columnar.Column.Minted
import Columnar.Yaml.Basic
import Columnar.Yaml.Scalar
import Columnar.Yaml.Parser
import Columnar.Yaml.Reader
import Columnar.Config.Source
import Columnar.Record.Document
import Columnar.CommandLine.Arguments
import Columnar.CommandLine.EnvironmentFile
import Columnar.CommandLine.Help
import Columnar.CommandLine.Run
import Columnar.Main
import Columnar.Proofs.DataType.RoundTrip
import Columnar.Proofs.Qualify.Tree
import Columnar.Proofs.DataType.Schema
import Columnar.Proofs.DataType.Place
import Columnar.Proofs.Qualify.Order
import Columnar.Proofs.Qualify.Backquoted
import Columnar.Proofs.Record.Binding
import Columnar.Proofs.Record.Reflection
import Columnar.Proofs.Record.Definition
import Columnar.Proofs.HostType
import Columnar.Proofs.Record.Nested
import Columnar.Proofs.Record.ShapeCache
import Columnar.Proofs.Record.Migration
import Columnar.Proofs.Record.Selection
import Columnar.Proofs.Qualify.Literal
import Columnar.Proofs.Qualify.StringLiteral
import Columnar.Proofs.Qualify.TrailingAlias
import Columnar.Proofs.Qualify.WholeName
import Columnar.Proofs.Expr.Unambiguous
import Columnar.Proofs.Expr.Balanced
import Columnar.Proofs.Expr.Position
import Columnar.Proofs.Literal.Constant
import Columnar.Proofs.Literal.Host
import Columnar.Proofs.Column.Script
import Columnar.Proofs.Column.Parameters
import Columnar.Proofs.Column.OutputName
import Columnar.Proofs.Column.Migration
import Columnar.Proofs.Column.LiteralArray
import Columnar.Proofs.Config.Active
import Columnar.Proofs.Frame
import Columnar.Proofs.Column.MapLookup
import Columnar.Proofs.Calendar
import Columnar.Proofs.DataType.Offsets
import Columnar.Proofs.DataType.WithinInput
import Columnar.Proofs.Literal.UniqueText
import Columnar.Proofs.Qualify.Copies
import Columnar.Proofs.Column.Window
