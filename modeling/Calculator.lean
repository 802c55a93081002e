import Calculator.Error
import Calculator.Expr.Basic
import Calculator.Expr.Climb
import Calculator.Grammar.Basic
import Calculator.Grammar.Builtin
import Calculator.Grammar.Describe
import Calculator.Grammar.Draft
import Calculator.Numeral.Basic
import Calculator.Numeral.Exponent
import Calculator.Numeral.Fault
import Calculator.Numeral.Literal
import Calculator.Numeral.Radix
import Calculator.Numeral.Rebase
import Calculator.Ordered
import Calculator.Session
import Calculator.Source.Excerpt
import Calculator.Source.Line
import Calculator.Text.Alphabetic
import Calculator.Text.Blank
import Calculator.Text.Extending
import Calculator.Text.Hidden
import Calculator.Text.Ignorable
import Calculator.Text.Numeric
import Calculator.Text.Quoted
import Calculator.Text.Ranges
import Calculator.Token.Basic
import Calculator.Token.Lexer
import Calculator.Token.Scan
import Calculator.Token.Stream
import Calculator.Token.Symbol
import Calculator.Proofs.Token.Sorted
import Calculator.Proofs.Expr.Binding
import Calculator.Proofs.Climb.Soundness
import Calculator.Proofs.Climb.Completeness
import Calculator.Proofs.Grammar.Builtin
import Calculator.Proofs.Grammar.Classes
import Calculator.Proofs.Token.Pieces
import Calculator.Proofs.Token.Tiles
import Calculator.Proofs.Token.Seams
import Calculator.Proofs.Token.Loosened
import Calculator.Proofs.Token.Respaced
import Calculator.Proofs.Token.Runs
import Calculator.Proofs.Token.Ahead
import Calculator.Proofs.Climb.Exact
import Calculator.Proofs.Climb.NothingLeft
import Calculator.Proofs.Climb.Traced
import Calculator.Proofs.Climb.Fair
import Calculator.Proofs.Climb.Bounded
import Calculator.Proofs.Climb.Leaves
import Calculator.Proofs.Climb.Lockstep
import Calculator.Proofs.Climb.Enough
import Calculator.Proofs.Climb.Blanks
import Calculator.Proofs.Numeral.Digits
import Calculator.Proofs.Numeral.Lexeme
import Calculator.Proofs.Numeral.Value
import Calculator.Proofs.Numeral.Readable
import Calculator.Proofs.Grammar.Registry
import Calculator.Proofs.Climb.Comparison
import Calculator.Proofs.Climb.Modes
import Calculator.Proofs.Climb.Sessions
import Calculator.Proofs.Numeral.Canonical
import Calculator.Proofs.Numeral.RoundTrip
import Calculator.Proofs.Climb.Delimited
import Calculator.Proofs.Climb.NormalForm
import Calculator.Proofs.Numeral.Fractions
import Calculator.Proofs.Numeral.Format
import Calculator.Proofs.Numeral.Suffixed
import Calculator.Proofs.Numeral.Exponents
import Calculator.Proofs.Climb.Idle
import Calculator.Proofs.Climb.Negative
import Calculator.Proofs.Expr.Parts
import Calculator.Proofs.Source.Lines
import Calculator.Proofs.Token.Positions
import Calculator.Proofs.Climb.Positions
import Calculator.Proofs.Climb.Blame
import Calculator.Proofs.Climb.Display
import Calculator.Proofs.Source.Caret
import Calculator.Proofs.Token.Resumed
import Calculator.Proofs.Grammar.Reordered
import Calculator.Proofs.Numeral.RadixText
import Calculator.Proofs.Grammar.Resolution
import Calculator.Proofs.Grammar.TableOrder
