import SqlFerry.Batch.Error
import SqlFerry.Batch.Job
import SqlFerry.Batch.Plan
import SqlFerry.Batch.Report
import SqlFerry.Buffer
import SqlFerry.CommandLine.Arguments
import SqlFerry.CommandLine.Command
import SqlFerry.Conversion
import SqlFerry.Dialect
import SqlFerry.EditError
import SqlFerry.Editor.Basic
import SqlFerry.Editor.Edit
import SqlFerry.FileTree
import SqlFerry.Json.Reader
import SqlFerry.Json.Value
import SqlFerry.Json.Writer
import SqlFerry.Layout.Cleanup
import SqlFerry.Layout.Indent
import SqlFerry.Ledger
import SqlFerry.LineNumber
import SqlFerry.Main
import SqlFerry.Naming
import SqlFerry.Options.Basic
import SqlFerry.Options.Reader
import SqlFerry.ParseError
import SqlFerry.Pass.Context
import SqlFerry.Pass.Declarations
import SqlFerry.Pass.Names
import SqlFerry.Pass.Parentheses
import SqlFerry.Pass.Script
import SqlFerry.Pass.Terminator
import SqlFerry.Pass.Visit
import SqlFerry.Path
import SqlFerry.Plpgsql.Assignments
import SqlFerry.Plpgsql.Calls
import SqlFerry.Plpgsql.Control
import SqlFerry.Plpgsql.Converter
import SqlFerry.Plpgsql.Expressions
import SqlFerry.Plpgsql.Function
import SqlFerry.Plpgsql.Messages
import SqlFerry.Plpgsql.Placeholders
import SqlFerry.Plpgsql.Procedures
import SqlFerry.Plpgsql.Queries
import SqlFerry.Position
import SqlFerry.Proofs.Editor.Line
import SqlFerry.Proofs.Text.Column
import SqlFerry.Span
import SqlFerry.Stage
import SqlFerry.Storage
import SqlFerry.Table
import SqlFerry.Text.Alphabetic
import SqlFerry.Text.Ascii
import SqlFerry.Text.Blank
import SqlFerry.Text.Case
import SqlFerry.Text.CaseIgnorable
import SqlFerry.Text.CaseRuns
import SqlFerry.Text.Cased
import SqlFerry.Text.CharSet
import SqlFerry.Text.Column
import SqlFerry.Text.Letter
import SqlFerry.Text.Numeric
import SqlFerry.Text.Pieces
import SqlFerry.Token
import SqlFerry.Tree.Arena
import SqlFerry.Tree.Basic
import SqlFerry.Tree.Builder
import SqlFerry.Tree.Node
import SqlFerry.Tree.Site
import SqlFerry.Tsql.Declarations
import SqlFerry.Tsql.Grammar.Cursor
import SqlFerry.Tsql.Grammar.Production
import SqlFerry.Tsql.Grammar.Rules
import SqlFerry.Tsql.Inference
import SqlFerry.Tsql.Kind
import SqlFerry.Tsql.Lexer
import SqlFerry.Tsql.Parser
import SqlFerry.Tsql.TypeName
import SqlFerry.Proofs.Editor.Survival
import SqlFerry.Proofs.Editor.View
import SqlFerry.Proofs.Editor.Patchwork
import SqlFerry.Proofs.Editor.Page
import SqlFerry.Proofs.Span
import SqlFerry.Proofs.Tsql.Lexer
import SqlFerry.Proofs.Tree.Arena
import SqlFerry.Proofs.Tree.Builder
import SqlFerry.Proofs.Tsql.Production
import SqlFerry.Proofs.Tsql.Parser
import SqlFerry.Proofs.Tsql.Progress
import SqlFerry.Proofs.Tree.Shape
import SqlFerry.Proofs.Tree.Sites
import SqlFerry.Proofs.Tree.Order
import SqlFerry.Proofs.Tree.WellFormed
import SqlFerry.Proofs.Tsql.Reading
import SqlFerry.Proofs.Tsql.Phrase
import SqlFerry.Proofs.Tsql.Expression
import SqlFerry.Proofs.Tsql.Derivation
import SqlFerry.Proofs.Tsql.Structure
import SqlFerry.Proofs.Tsql.Balance
import SqlFerry.Proofs.Editor.Sweep
import SqlFerry.Proofs.Pass.Names
import SqlFerry.Proofs.Editor.Stretch
import SqlFerry.Proofs.Tsql.Placement
import SqlFerry.Proofs.Plpgsql.Expressions
import SqlFerry.Proofs.Tsql.Form
import SqlFerry.Proofs.Tsql.Code
import SqlFerry.Proofs.Tsql.Columns
import SqlFerry.Proofs.Tsql.Program
import SqlFerry.Proofs.Editor.Rewriting
import SqlFerry.Proofs.Pass.Walk
import SqlFerry.Proofs.Pass.Parentheses
import SqlFerry.Proofs.Pass.Terminator
import SqlFerry.Proofs.Pass.Declarations
import SqlFerry.Proofs.Plpgsql.Control
import SqlFerry.Proofs.Plpgsql.Routine
import SqlFerry.Proofs.Text.Words
import SqlFerry.Proofs.Plpgsql.Layout
import SqlFerry.Proofs.Plpgsql.Reassembly
import SqlFerry.Proofs.Plpgsql.Function
import SqlFerry.Proofs.Naming
import SqlFerry.Proofs.Plpgsql.Translation
import SqlFerry.Proofs.Plpgsql.ControlFlow
import SqlFerry.Proofs.Editor.Replacements
import SqlFerry.Proofs.Start
import SqlFerry.Proofs.Path
import SqlFerry.Proofs.Text.Bytes
import SqlFerry.Proofs.Storage
import SqlFerry.Proofs.FileTree
import SqlFerry.Proofs.Batch.Plan
import SqlFerry.Proofs.Batch.Accounting
import SqlFerry.Proofs.Tsql.Compound
import SqlFerry.Proofs.Editor.Draft
import SqlFerry.Proofs.Pass.Marks
import SqlFerry.Proofs.Pass.Enclosing
import SqlFerry.Proofs.Pass.Repair
import SqlFerry.Proofs.Pass.Repaired
import SqlFerry.Proofs.Tsql.Punctuation
import SqlFerry.Proofs.Pass.Termination
import SqlFerry.Proofs.Plpgsql.Placeholders
import SqlFerry.Proofs.Editor.Locality
import SqlFerry.Proofs.Tsql.Delimiters
import SqlFerry.Proofs.Layout.Cleanup
import SqlFerry.Proofs.Editor.Ranges
