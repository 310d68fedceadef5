import ExprLang.Command.Arguments
import ExprLang.Command.Files
import ExprLang.Command.Options
import ExprLang.Command.Output
import ExprLang.Command.Path
import ExprLang.Command.Program
import ExprLang.Config.Layout
import ExprLang.Config.Literal
import ExprLang.Config.Node
import ExprLang.Config.Place
import ExprLang.Config.Plain
import ExprLang.Config.Quoted
import ExprLang.Config.Reader
import ExprLang.Config.Scalar
import ExprLang.Config.Settings
import ExprLang.Config.Timestamp
import ExprLang.Config.Yaml
import ExprLang.Diagnostic.Basic
import ExprLang.Diagnostic.Log
import ExprLang.Expr.Basic
import ExprLang.Expr.Grammar
import ExprLang.Expr.Operators
import ExprLang.Expr.Parse
import ExprLang.Expr.Parser
import ExprLang.Json
import ExprLang.Json.Reader
import ExprLang.Logging
import ExprLang.Main
import ExprLang.Number.Binary64
import ExprLang.Number.Decimal
import ExprLang.Number.Printed
import ExprLang.Number.Shortest
import ExprLang.Position
import ExprLang.Proofs.AppendOnly
import ExprLang.Proofs.Binding
import ExprLang.Proofs.BlankLines
import ExprLang.Proofs.Concatenations
import ExprLang.Proofs.Conversations
import ExprLang.Proofs.CursorPlaces
import ExprLang.Proofs.DecimalTexts
import ExprLang.Proofs.Delimiters
import ExprLang.Proofs.DigitRuns
import ExprLang.Proofs.DirectEvaluation
import ExprLang.Proofs.Dumps
import ExprLang.Proofs.EndOfInput
import ExprLang.Proofs.Grammar
import ExprLang.Proofs.Infinities
import ExprLang.Proofs.Lexemes
import ExprLang.Proofs.LineByLine
import ExprLang.Proofs.LiteralTexts
import ExprLang.Proofs.LookingAhead
import ExprLang.Proofs.Nesting
import ExprLang.Proofs.OpenGroups
import ExprLang.Proofs.ParserMoves
import ExprLang.Proofs.ParserRun
import ExprLang.Proofs.Presentation
import ExprLang.Proofs.PrintedNumbers
import ExprLang.Proofs.Quoting
import ExprLang.Proofs.Recovery
import ExprLang.Proofs.Regrouping
import ExprLang.Proofs.Relabelling
import ExprLang.Proofs.Rendering
import ExprLang.Proofs.ReportLines
import ExprLang.Proofs.Reports
import ExprLang.Proofs.Rounding
import ExprLang.Proofs.Scanning
import ExprLang.Proofs.Sessions
import ExprLang.Proofs.SourceOrder
import ExprLang.Proofs.Trivia
import ExprLang.Proofs.TypeChecking
import ExprLang.Proofs.TypeSoundness
import ExprLang.Proofs.WholeNumbers
import ExprLang.Session.Reader
import ExprLang.Session.Report
import ExprLang.Session.Run
import ExprLang.Session.Trace
import ExprLang.Source.Cursor
import ExprLang.Text
import ExprLang.Token.Basic
import ExprLang.Token.Scanner
import ExprLang.Token.Stream
import ExprLang.Token.Symbol
import ExprLang.Typed.Basic
import ExprLang.Typed.Evaluation
import ExprLang.Typed.Operators
import ExprLang.Typed.Typing
import ExprLang.Typed.Value
