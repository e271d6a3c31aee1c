import Parlance.Chat.Dispatch
import Parlance.Chat.Verb
import Parlance.Command.Basic
import Parlance.Command.Expansion
import Parlance.Command.Overload
import Parlance.Command.Permission
import Parlance.Command.Standard
import Parlance.CommandLine.Help
import Parlance.CommandLine.Report
import Parlance.CommandLine.Request
import Parlance.CommandLine.Settings
import Parlance.CommandLine.Task
import Parlance.Eval.Access
import Parlance.Eval.Basic
import Parlance.Eval.Error
import Parlance.Eval.Machine
import Parlance.Eval.Operators
import Parlance.Expr.Basic
import Parlance.Expr.Fault
import Parlance.Expr.Joiner
import Parlance.Expr.Literal
import Parlance.Expr.Parser
import Parlance.Expr.Printer
import Parlance.Main
import Parlance.Number.Arithmetic
import Parlance.Number.Decimal
import Parlance.Number.Double
import Parlance.Number.Integer
import Parlance.Number.Numeral
import Parlance.Number.Radix
import Parlance.Registry.Basic
import Parlance.Registry.Error
import Parlance.Session
import Parlance.Table
import Parlance.Text.Blank
import Parlance.Text.Bytes
import Parlance.Text.Extending
import Parlance.Text.Printable
import Parlance.Text.Quoted
import Parlance.Token.Basic
import Parlance.Token.Lexer
import Parlance.Ty.Basic
import Parlance.Ty.Cast
import Parlance.Ty.Erasure
import Parlance.Ty.Reader
import Parlance.Value.Basic
import Parlance.Value.Order
import Parlance.Value.Printer
import Parlance.Proofs.Registry.History
import Parlance.Proofs.Registry.Names
import Parlance.Proofs.Registry.Chains
import Parlance.Proofs.Eval.Discipline
import Parlance.Proofs.Eval.Fundamental
import Parlance.Proofs.Eval.Account
import Parlance.Proofs.Eval.Frame
import Parlance.Proofs.Chat.Gate
import Parlance.Proofs.Chat.Frame
import Parlance.Proofs.Ty.Erasure
import Parlance.Proofs.Value.WellFormed
import Parlance.Proofs.Eval.Soundness
import Parlance.Proofs.Token.Extent
import Parlance.Proofs.Token.Layout
import Parlance.Proofs.Expr.Grammar
import Parlance.Proofs.Expr.Reading
import Parlance.Proofs.Expr.Completeness
import Parlance.Proofs.Expr.Soundness
import Parlance.Proofs.Expr.Acceptance
import Parlance.Proofs.Expr.Complaints
import Parlance.Proofs.Session.Types
import Parlance.Proofs.Eval.Depth
import Parlance.Proofs.Chat.Calls
import Parlance.Proofs.Chat.Masks
import Parlance.Proofs.Value.Order
import Parlance.Proofs.Value.Paths
import Parlance.Proofs.Value.Walk
import Parlance.Proofs.Eval.Places
import Parlance.Proofs.Eval.Quiet
import Parlance.Proofs.Value.Lists
import Parlance.Proofs.Eval.Appending
import Parlance.Proofs.Number.Range
import Parlance.Proofs.Eval.Arithmetic
import Parlance.Proofs.Eval.Compound
import Parlance.Proofs.Session.Globals
import Parlance.Proofs.Token.Brackets
import Parlance.Proofs.Command.Expressions
import Parlance.Proofs.Ty.Order
import Parlance.Proofs.Value.Total
import Parlance.Proofs.Registry.Lookup
import Parlance.Proofs.Registry.Conservation
import Parlance.Proofs.Token.Severing
import Parlance.Proofs.Token.Spacing
import Parlance.Proofs.Expr.Spacing
import Parlance.Proofs.Command.Choice
import Parlance.Proofs.Ty.Spelling
import Parlance.Proofs.Ty.Display
import Parlance.Proofs.Expr.Tokens
import Parlance.Proofs.Number.Positional
import Parlance.Proofs.Expr.Numerals
import Parlance.Proofs.Expr.Quotation
import Parlance.Proofs.Ty.Conversion
import Parlance.Proofs.Ty.Join
import Parlance.Proofs.Value.Literals
import Parlance.Proofs.Command.Standard
import Parlance.Proofs.Eval.Standard
import Parlance.Proofs.Command.Splitting
import Parlance.Proofs.Chat.Show
import Parlance.Proofs.Command.Echo
import Parlance.Proofs.Value.Slices
import Parlance.Proofs.Eval.Chain
import Parlance.Proofs.Eval.Pipeline
import Parlance.Proofs.Number.Parts
import Parlance.Proofs.Number.Digits
import Parlance.Proofs.Number.Intervals
import Parlance.Proofs.Number.Shortest
import Parlance.Proofs.Value.Trichotomy
import Parlance.Proofs.Eval.Decimals
import Parlance.Proofs.Text.Quoted
import Parlance.Proofs.Text.Groups
import Parlance.Proofs.Expr.Cursor
import Parlance.Proofs.Expr.Progress
import Parlance.Proofs.Expr.Trees
import Parlance.Proofs.Expr.Made
import Parlance.Proofs.Expr.Shapes
import Parlance.Proofs.Expr.Apart
