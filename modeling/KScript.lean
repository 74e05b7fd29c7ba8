import KScript.CommandLine
import KScript.Diagnostic
import KScript.Dump.Data
import KScript.Dump.Format
import KScript.Dump.Json
import KScript.Dump.Yaml
import KScript.Dump.Yaml.Implicit
import KScript.Dump.Yaml.Scalar
import KScript.Env
import KScript.Env.Forest
import KScript.Eval
import KScript.Eval.Call
import KScript.Eval.Class
import KScript.Eval.Interp
import KScript.Eval.Operator
import KScript.Eval.Property
import KScript.Eval.Variable
import KScript.Failure
import KScript.Folder
import KScript.Folder.Path
import KScript.Machine
import KScript.Main
import KScript.Native
import KScript.Number.Arithmetic
import KScript.Number.Decimal
import KScript.Number.Double
import KScript.Number.Layout
import KScript.Proofs.Alike.Evaluation
import KScript.Proofs.Alike.Objects
import KScript.Proofs.Alike.Routines
import KScript.Proofs.Alike.Runs
import KScript.Proofs.Alike.Sessions
import KScript.Proofs.Alike.Trees
import KScript.Proofs.Alike.Values
import KScript.Proofs.Blame.Cuts
import KScript.Proofs.Blame.Guards
import KScript.Proofs.Blame.Invocations
import KScript.Proofs.Blame.Raising
import KScript.Proofs.Chronicle.Equality
import KScript.Proofs.Chronicle.Evaluation
import KScript.Proofs.Chronicle.Evaluator
import KScript.Proofs.Chronicle.Laws
import KScript.Proofs.Chronicle.Operations
import KScript.Proofs.Chronicle.Rules
import KScript.Proofs.Code.Carried
import KScript.Proofs.Dump.Faithful
import KScript.Proofs.Dump.Reading
import KScript.Proofs.Dump.Scalars
import KScript.Proofs.Dump.Trees
import KScript.Proofs.Env.Chains
import KScript.Proofs.Env.Frames
import KScript.Proofs.Eval.Agreement
import KScript.Proofs.Eval.Heap
import KScript.Proofs.Eval.Objects
import KScript.Proofs.Eval.Outline
import KScript.Proofs.Eval.References
import KScript.Proofs.Eval.Routines
import KScript.Proofs.Eval.Tie
import KScript.Proofs.Eval.Watch
import KScript.Proofs.Grammar.Expression
import KScript.Proofs.Grammar.Lexed
import KScript.Proofs.Grammar.Names
import KScript.Proofs.Grammar.Parts
import KScript.Proofs.Grammar.Rendering
import KScript.Proofs.Grammar.Spelled
import KScript.Proofs.Grammar.Statement
import KScript.Proofs.Jump.Exits
import KScript.Proofs.Jump.Targets
import KScript.Proofs.Lineage.Dispatch
import KScript.Proofs.Lineage.Evaluation
import KScript.Proofs.Lineage.Marks
import KScript.Proofs.Lineage.Recorded
import KScript.Proofs.Lineage.Records
import KScript.Proofs.Lines.Grammar
import KScript.Proofs.Lines.Relined
import KScript.Proofs.Lines.Scopes
import KScript.Proofs.Lines.Scripts
import KScript.Proofs.Number.Equality
import KScript.Proofs.Number.Nearest
import KScript.Proofs.Number.Rounding
import KScript.Proofs.Number.Shortest
import KScript.Proofs.Number.Thresholds
import KScript.Proofs.Number.Written
import KScript.Proofs.Parser.ExpressionComplete
import KScript.Proofs.Parser.ExpressionSound
import KScript.Proofs.Parser.Ladder
import KScript.Proofs.Parser.Placed
import KScript.Proofs.Parser.Progress
import KScript.Proofs.Parser.Reading
import KScript.Proofs.Parser.Reads
import KScript.Proofs.Parser.RoundTrip
import KScript.Proofs.Parser.Stable
import KScript.Proofs.Parser.StatementComplete
import KScript.Proofs.Parser.StatementSound
import KScript.Proofs.Parser.Surroundings
import KScript.Proofs.Printed.Forms
import KScript.Proofs.Printed.Scripts
import KScript.Proofs.Printed.Trees
import KScript.Proofs.Reach.Cells
import KScript.Proofs.Reach.Confinement
import KScript.Proofs.Reach.Evaluation
import KScript.Proofs.Reach.Policy
import KScript.Proofs.Rename.Likeness
import KScript.Proofs.Rename.Programs
import KScript.Proofs.Rename.Resolve
import KScript.Proofs.Rename.Scopes
import KScript.Proofs.Scope.Admitted
import KScript.Proofs.Scope.Legality
import KScript.Proofs.Scope.Nearest
import KScript.Proofs.Scope.Order
import KScript.Proofs.Scope.Places
import KScript.Proofs.Scope.Settled
import KScript.Proofs.Scope.Uses
import KScript.Proofs.Session.Completions
import KScript.Proofs.Session.Failures
import KScript.Proofs.Session.Guarded
import KScript.Proofs.Session.Inheritance
import KScript.Proofs.Session.Parameters
import KScript.Proofs.Session.Properties
import KScript.Proofs.Session.Reached
import KScript.Proofs.Session.Receivers
import KScript.Proofs.Session.Rejected
import KScript.Proofs.Session.Renaming
import KScript.Proofs.Session.ScopeAgreement
import KScript.Proofs.Session.Splitting
import KScript.Proofs.Session.Traces
import KScript.Proofs.Text.Quoted
import KScript.Proofs.Token.Bases
import KScript.Proofs.Token.Display
import KScript.Proofs.Token.Lexed
import KScript.Proofs.Token.Lexemes
import KScript.Proofs.Token.Pieces
import KScript.Proofs.Token.Seam
import KScript.Proofs.Token.Spacing
import KScript.Proofs.Token.Tiling
import KScript.Proofs.Token.Words
import KScript.Proofs.Walk.Evaluation
import KScript.Proofs.Walk.Evaluator
import KScript.Proofs.Walk.Operations
import KScript.Proofs.Walk.Rules
import KScript.Proofs.Walk.Sessions
import KScript.Scope
import KScript.Scope.Binding
import KScript.Scope.Check
import KScript.Scope.Resolve
import KScript.Session
import KScript.Syntax
import KScript.Syntax.Cursor
import KScript.Syntax.Parser.Expression
import KScript.Syntax.Parser.Statement
import KScript.Syntax.PrefixForm
import KScript.Table
import KScript.Text.Literal
import KScript.Text.Pattern
import KScript.Text.Printable
import KScript.Text.Quoted
import KScript.Token
import KScript.Token.Scan
import KScript.Value
import KScript.Value.Text
