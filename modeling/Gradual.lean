import Gradual.Text.CharClass
import Gradual.Text.Outline
import Gradual.Text.Quoted
import Gradual.Text.Span
import Gradual.Number.Double
import Gradual.Number.Shortest
import Gradual.Token.Basic
import Gradual.Token.Piece
import Gradual.Token.Reader
import Gradual.Tree.Annotation
import Gradual.Tree.Basic
import Gradual.Tree.Outline
import Gradual.Grammar.Parser
import Gradual.Grammar.Annotation
import Gradual.Grammar.Expr
import Gradual.Grammar.Program
import Gradual.Types.Parameter
import Gradual.Types.Basic
import Gradual.Types.Text
import Gradual.Types.Declaration
import Gradual.Call.Basic
import Gradual.Call.Constraint
import Gradual.Call.Partition
import Gradual.Call.Check
import Gradual.Call.Result
import Gradual.Scope.Basic
import Gradual.Scope.Prelude
import Gradual.Check.Issue
import Gradual.Check.Resolve
import Gradual.Check.Typing
import Gradual.Check.Event
import Gradual.Check.Run
import Gradual.Check.Validity
import Gradual.Report.Error
import Gradual.Report.Diagnostic
import Gradual.Report.Check
import Gradual.Report.CommandLine
import Gradual.Main
import Gradual.Proofs.Call.Linked
import Gradual.Proofs.Call.Constraint
import Gradual.Proofs.Call.Check
import Gradual.Proofs.Call.Connected
import Gradual.Proofs.Types.Instance
import Gradual.Proofs.Call.Solvable
import Gradual.Proofs.Call.Principal
import Gradual.Proofs.Call.Refused
import Gradual.Proofs.Tree.Induction
import Gradual.Proofs.Check.Typing
import Gradual.Proofs.Check.Validity
import Gradual.Proofs.Check.Unwrap
import Gradual.Proofs.Check.Parentheses
import Gradual.Proofs.Call.Result
import Gradual.Proofs.Check.Accepted
import Gradual.Proofs.Types.Vaguer
import Gradual.Proofs.Types.Permute
import Gradual.Proofs.Types.Signature
import Gradual.Proofs.Call.Permute
import Gradual.Proofs.Call.Renamed
import Gradual.Proofs.Call.Forget
import Gradual.Proofs.Call.Merge
import Gradual.Proofs.Scope.Closed
import Gradual.Proofs.Check.Closed
import Gradual.Proofs.Scope.Annotations
import Gradual.Proofs.Scope.Forget
import Gradual.Proofs.Check.Forget
import Gradual.Proofs.Check.Guarantee
import Gradual.Proofs.Check.Visited
import Gradual.Proofs.Check.Asked
import Gradual.Proofs.Scope.Names
import Gradual.Proofs.Check.Names
import Gradual.Proofs.Check.Blame
import Gradual.Proofs.Check.Lexical
import Gradual.Proofs.Scope.Renamed
import Gradual.Proofs.Check.Renamed.Typing
import Gradual.Proofs.Check.Renamed.Definition
import Gradual.Proofs.Check.Renamed.Sites
import Gradual.Proofs.Check.Renamed.Program
import Gradual.Proofs.Token.Stream
import Gradual.Proofs.Tree.Phrase
import Gradual.Proofs.Tree.Grouping
import Gradual.Proofs.Text.Position
import Gradual.Proofs.Token.Placed
import Gradual.Proofs.Token.Written
import Gradual.Proofs.Token.Tiling
import Gradual.Proofs.Grammar.Parser
import Gradual.Proofs.Grammar.Annotation
import Gradual.Proofs.Grammar.Expr
import Gradual.Proofs.Grammar.Program
import Gradual.Proofs.Tree.Spanless
import Gradual.Proofs.Grammar.Kinds
import Gradual.Proofs.Grammar.Canonical
import Gradual.Proofs.Grammar.Reports
import Gradual.Proofs.Grammar.Errors
import Gradual.Proofs.Check.Located
import Gradual.Proofs.Check.Paired
import Gradual.Proofs.Report.Errors
import Gradual.Proofs.Token.Session
import Gradual.Proofs.Tree.Desugar
import Gradual.Proofs.Check.Sugar
import Gradual.Proofs.Check.Bindings
import Gradual.Proofs.Token.Cuts
import Gradual.Proofs.Grammar.ReadBack
import Gradual.Proofs.Check.Displayed
import Gradual.Proofs.Report.Options
import Gradual.Proofs.Tree.Nodes
import Gradual.Proofs.Grammar.Spans
import Gradual.Proofs.Grammar.Recursion
import Gradual.Proofs.Grammar.Termination
import Gradual.Proofs.Token.Blanks
import Gradual.Proofs.Token.Spaced
import Gradual.Proofs.Token.Glued
import Gradual.Proofs.Token.Between
import Gradual.Proofs.Token.Literal
import Gradual.Proofs.Token.Longest
import Gradual.Proofs.Call.Reordered
import Gradual.Proofs.Call.Fresh
import Gradual.Proofs.Text.Lines
