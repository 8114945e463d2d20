import PocketCalculator.Binary64.Arithmetic
import PocketCalculator.Binary64.Basic
import PocketCalculator.Binary64.Rounding
import PocketCalculator.Calculation.Basic
import PocketCalculator.Calculation.Grouping
import PocketCalculator.Calculation.Places
import PocketCalculator.CommandLine.Arguments
import PocketCalculator.CommandLine.Report
import PocketCalculator.CommandLine.Run
import PocketCalculator.Decimal.Basic
import PocketCalculator.Decimal.Numeral
import PocketCalculator.Decimal.Shortest
import PocketCalculator.Decimal.Text
import PocketCalculator.Expression.Operator
import PocketCalculator.Expression.Order
import PocketCalculator.Expression.Token
import PocketCalculator.Expression.Value
import PocketCalculator.Files.Basic
import PocketCalculator.Files.Tree
import PocketCalculator.Keypad.Basic
import PocketCalculator.Keypad.Key
import PocketCalculator.Keypad.Trailing
import PocketCalculator.Main
import PocketCalculator.Proofs.Binary64.Nearest
import PocketCalculator.Proofs.Binary64.NearestValue
import PocketCalculator.Proofs.Binary64.Operations
import PocketCalculator.Proofs.Binary64.Spacing
import PocketCalculator.Proofs.Calculation.Drift
import PocketCalculator.Proofs.Calculation.Idempotence
import PocketCalculator.Proofs.Calculation.Places
import PocketCalculator.Proofs.Calculation.Stray
import PocketCalculator.Proofs.Decimal.Positional
import PocketCalculator.Proofs.Decimal.ReadBack
import PocketCalculator.Proofs.Expression.Conservation
import PocketCalculator.Proofs.Expression.Failure
import PocketCalculator.Proofs.Expression.Grammar
import PocketCalculator.Proofs.Expression.Lossless
import PocketCalculator.Proofs.Expression.Stack
import PocketCalculator.Proofs.Keypad.Numbers
import PocketCalculator.Proofs.Keypad.Result
import PocketCalculator.Proofs.Keypad.Shown
import PocketCalculator.Proofs.Keypad.Trailing
import PocketCalculator.Proofs.Keypad.Typed
import PocketCalculator.Proofs.Keypad.Typing
import PocketCalculator.Proofs.Keypad.WellFormed
import PocketCalculator.Proofs.Session.Failures
import PocketCalculator.Proofs.Session.Replay
import PocketCalculator.Session.Basic
import PocketCalculator.Session.Lines
import PocketCalculator.Session.Outcome
import PocketCalculator.Session.Replay
import PocketCalculator.Settings.Basic
import PocketCalculator.Settings.Load
import PocketCalculator.Text.Basic
import PocketCalculator.Text.Blank
import PocketCalculator.Text.Digit
import PocketCalculator.Text.Hidden
import PocketCalculator.Text.Lines
import PocketCalculator.Text.Quoted
import PocketCalculator.Text.Utf8
import PocketCalculator.Toml.Document
import PocketCalculator.Toml.Lexeme
import PocketCalculator.Toml.Line
import PocketCalculator.Toml.Quotes
import PocketCalculator.Toml.Scalar
import PocketCalculator.Toml.Value
import PocketCalculator.Proofs.Calculation.Literals
import PocketCalculator.Proofs.Expression.Operand
import PocketCalculator.Proofs.Expression.Overflow
import PocketCalculator.Proofs.Keypad.History
import PocketCalculator.Proofs.Session.Lines
import PocketCalculator.Proofs.Text.Lines
import PocketCalculator.Proofs.Expression.Dangling
import PocketCalculator.Proofs.Expression.Enclosed
import PocketCalculator.Proofs.Keypad.Leading
import PocketCalculator.Proofs.Keypad.Percent
import PocketCalculator.Proofs.Expression.Complete
import PocketCalculator.Proofs.Expression.Readable
import PocketCalculator.Proofs.Expression.Rearrangement
import PocketCalculator.Proofs.Expression.Unopened
import PocketCalculator.Proofs.Expression.Meaningless
import PocketCalculator.Proofs.Calculation.Powers
import PocketCalculator.Proofs.Calculation.Zero
import PocketCalculator.Proofs.Calculation.Monotone
import PocketCalculator.Proofs.Calculation.Results
import PocketCalculator.Proofs.Calculation.Grouping
import PocketCalculator.Proofs.Decimal.Shortest
import PocketCalculator.Proofs.Keypad.Dot
