import Stackwright.Analysis.Basic
import Stackwright.Analysis.Expression
import Stackwright.Analysis.Program
import Stackwright.Analysis.Statement
import Stackwright.Assembly.Fragment
import Stackwright.Assembly.Instruction
import Stackwright.Assembly.Labeller
import Stackwright.Assembly.Opcode
import Stackwright.Binary64
import Stackwright.CommandLine.Arguments
import Stackwright.CommandLine.Command
import Stackwright.CommandLine.Directory
import Stackwright.Compile
import Stackwright.Diagnostic
import Stackwright.Lowering.Environment
import Stackwright.Lowering.Expression
import Stackwright.Lowering.Function
import Stackwright.Lowering.Program
import Stackwright.Lowering.Statement
import Stackwright.Machine.Fault
import Stackwright.Machine.Format
import Stackwright.Machine.Image
import Stackwright.Machine.Memory
import Stackwright.Machine.Run
import Stackwright.Machine.Step
import Stackwright.Main
import Stackwright.Operator
import Stackwright.ReturnPaths
import Stackwright.Scope.Allocator
import Stackwright.Scope.Binding
import Stackwright.Scope.Tree
import Stackwright.Session
import Stackwright.Span
import Stackwright.Text.Blank
import Stackwright.Text.Fingerprint
import Stackwright.Text.Line
import Stackwright.Text.Utf8
import Stackwright.Token.Basic
import Stackwright.Token.Fault
import Stackwright.Token.Kind
import Stackwright.Token.Lexer
import Stackwright.Token.Munch
import Stackwright.Tree.Basic
import Stackwright.Tree.Fault
import Stackwright.Tree.Literal
import Stackwright.Tree.Parser.Cursor
import Stackwright.Tree.Parser.Expression
import Stackwright.Tree.Parser.Program
import Stackwright.Tree.Parser.Statement
import Stackwright.Ty
import Stackwright.Proofs.Tree.Cursor
import Stackwright.Proofs.Tree.Reading
import Stackwright.Proofs.Tree.Grammar
import Stackwright.Proofs.Tree.Passing
import Stackwright.Proofs.Tree.Accepting
import Stackwright.Proofs.Tree.Deriving
import Stackwright.Proofs.Tree.Building
import Stackwright.Proofs.Tree.Deciding
import Stackwright.Proofs.Nest
import Stackwright.Proofs.Rules
import Stackwright.Proofs.Scope.Chain
import Stackwright.Proofs.Scope.Growth
import Stackwright.Proofs.Checking.Notes
import Stackwright.Proofs.Placement
import Stackwright.Proofs.Checking.Expression
import Stackwright.Proofs.Checking.Statement
import Stackwright.Proofs.Checking.Program
import Stackwright.Proofs.Semantics
import Stackwright.Proofs.Soundness
import Stackwright.Proofs.Machine.Memory
import Stackwright.Proofs.Machine.Steps
import Stackwright.Proofs.Lowering.Emission
import Stackwright.Proofs.Machine.Loading
import Stackwright.Proofs.Build.Basic
import Stackwright.Proofs.Build.Image
import Stackwright.Proofs.Machine.Advance
import Stackwright.Proofs.Simulation.Words
import Stackwright.Proofs.Simulation.Storage
import Stackwright.Proofs.Simulation.Names
import Stackwright.Proofs.Simulation.Runs
import Stackwright.Proofs.Simulation.Access
import Stackwright.Proofs.Simulation.Calls
import Stackwright.Proofs.Simulation.Expression
import Stackwright.Proofs.Session
import Stackwright.Proofs.Machine.Placing
import Stackwright.Proofs.Machine.Renaming
import Stackwright.Proofs.Lowering.Renaming
import Stackwright.Proofs.Lowering.Families
import Stackwright.Proofs.Build.Accepted
import Stackwright.Proofs.Build.Labels
import Stackwright.Proofs.Build.Options
import Stackwright.Proofs.Simulation.Evaluation
import Stackwright.Proofs.Simulation.Function
import Stackwright.Proofs.CallFrame
import Stackwright.Proofs.Checking.Storage
import Stackwright.Proofs.Comparison
import Stackwright.Proofs.Reordering.Length
import Stackwright.Proofs.Reordering.Source
import Stackwright.Proofs.Reordering.Timing
import Stackwright.Proofs.Paths
import Stackwright.Proofs.Reordering.Runs
import Stackwright.Proofs.Scope.Types
import Stackwright.Proofs.Checking.Reports
import Stackwright.Proofs.Checking.Poisoning
import Stackwright.Proofs.Scope.Taking
import Stackwright.Proofs.Checking.Frames
import Stackwright.Proofs.Build.Reservations
import Stackwright.Proofs.Tree.Recovery
import Stackwright.Proofs.Checking.Clean
import Stackwright.Proofs.Checking.Balance
import Stackwright.Proofs.Checking.Redefinition
import Stackwright.Proofs.Lowering.Lookups
import Stackwright.Proofs.Scope.History
import Stackwright.Proofs.Token.Spacing
import Stackwright.Proofs.Tree.RoundTrip
import Stackwright.Proofs.Token.Tiling
import Stackwright.Proofs.Tree.Numbering
import Stackwright.Proofs.Tree.Locality
import Stackwright.Proofs.Tree.Recursion
import Stackwright.Proofs.Tree.Literals
import Stackwright.Proofs.Machine.Linking
import Stackwright.Proofs.Machine.Limits
import Stackwright.Proofs.Machine.Stores
import Stackwright.Proofs.Updates
import Stackwright.Proofs.Positions
import Stackwright.Proofs.Tree.Excerpt
import Stackwright.Proofs.Build.Text
