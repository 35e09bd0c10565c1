import LetFn.CommandLine.Options
import LetFn.CommandLine.Report
import LetFn.CommandLine.Script
import LetFn.Eval.Basic
import LetFn.Eval.Depth
import LetFn.Eval.Operator
import LetFn.Eval.Run
import LetFn.Integer.Basic
import LetFn.Integer.Decimal
import LetFn.Interpret
import LetFn.Main
import LetFn.Parser.Program
import LetFn.Parser.State
import LetFn.Parser.Step
import LetFn.Proofs.CommandLine.Session
import LetFn.Proofs.CommandLine.Shown
import LetFn.Proofs.Eval.Alike
import LetFn.Proofs.Eval.Arithmetic
import LetFn.Proofs.Eval.Course
import LetFn.Proofs.Eval.Forget
import LetFn.Proofs.Eval.Frame
import LetFn.Proofs.Eval.Identity
import LetFn.Proofs.Eval.Layout
import LetFn.Proofs.Eval.Lookups
import LetFn.Proofs.Eval.Outward
import LetFn.Proofs.Eval.Parallel
import LetFn.Proofs.Eval.Promise
import LetFn.Proofs.Eval.Reachable
import LetFn.Proofs.Eval.Renumber
import LetFn.Proofs.Eval.Repeat
import LetFn.Proofs.Eval.Runs
import LetFn.Proofs.Eval.Scoping
import LetFn.Proofs.Eval.Separate
import LetFn.Proofs.Eval.Settled
import LetFn.Proofs.Eval.Tail
import LetFn.Proofs.Eval.Unmentioned
import LetFn.Proofs.Eval.Unwinding
import LetFn.Proofs.Parser.Broken
import LetFn.Proofs.Parser.Complete
import LetFn.Proofs.Parser.Descent
import LetFn.Proofs.Parser.Fault
import LetFn.Proofs.Parser.Grammar
import LetFn.Proofs.Parser.Joined
import LetFn.Proofs.Parser.Language
import LetFn.Proofs.Parser.Literals
import LetFn.Proofs.Parser.Lossless
import LetFn.Proofs.Parser.Mirror
import LetFn.Proofs.Parser.Order
import LetFn.Proofs.Parser.Origin
import LetFn.Proofs.Parser.Outline
import LetFn.Proofs.Parser.Places
import LetFn.Proofs.Parser.Precedence
import LetFn.Proofs.Parser.Progress
import LetFn.Proofs.Parser.Recovery
import LetFn.Proofs.Parser.Regular
import LetFn.Proofs.Parser.Sequence
import LetFn.Proofs.Parser.Sound
import LetFn.Proofs.Parser.Verdict
import LetFn.Proofs.Parser.Viable
import LetFn.Proofs.Render.Reread
import LetFn.Proofs.Render.RoundTrip
import LetFn.Proofs.Render.Words
import LetFn.Proofs.Syntax.Chain
import LetFn.Proofs.Syntax.Nodes
import LetFn.Proofs.Syntax.Reading
import LetFn.Proofs.Syntax.Relabel
import LetFn.Proofs.Syntax.Scoping
import LetFn.Proofs.Token.Division
import LetFn.Proofs.Token.Layout
import LetFn.Proofs.Token.Lexemes
import LetFn.Proofs.Token.Positions
import LetFn.Proofs.Token.Scanner
import LetFn.Repl
import LetFn.Syntax.Basic
import LetFn.Syntax.Equality
import LetFn.Syntax.Error
import LetFn.Syntax.Render
import LetFn.Text.CharClass
import LetFn.Text.Quoted
import LetFn.Token.Basic
import LetFn.Token.Lexer
import LetFn.Value.Basic
import LetFn.Value.Error
import LetFn.Value.Text
import LetFn.World
