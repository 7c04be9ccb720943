import Stackwright.Analysis.Program
import Stackwright.Lowering.Program
import Stackwright.Machine.Run
import Stackwright.Tree.Parser.Program

/-! From source text to code, and everything that can fail on the way to a result. -/

set_option autoImplicit false

namespace Stackwright

inductive Failure where
  | lexical (fault : LexicalFault)
  | malformed (faults : List SyntaxFault)
  | illTyped (diagnostics : List Diagnostic)
  | runtime (fault : Machine.Fault)
  deriving DecidableEq, Repr

namespace Failure

def message : Failure → String
  | .lexical fault => fault.message
  | .malformed faults => SyntaxFault.listText faults
  | .illTyped diagnostics => "compilation failed with " ++ toString diagnostics.length ++ " error(s)"
  | .runtime fault => fault.message

/-- Whether the source could not be read. A failure has exactly one of these three properties; they
let callers tell failures apart without a match. -/
def isSyntactic : Failure → Bool
  | .lexical _ | .malformed _ => true
  | _ => false

def isSemantic : Failure → Bool
  | .illTyped _ => true
  | _ => false

def isRuntime : Failure → Bool
  | .runtime _ => true
  | _ => false

end Failure

/-- The code of a program, or everything that is wrong with it. -/
def Program.compile (program : Program) (options : CompileOptions) : Except (List Diagnostic) Code :=
  let analysis := program.analyze
  if analysis.diagnostics.isEmpty then .ok (program.generate analysis options)
  else .error analysis.diagnostics

/-- The code of a source text. -/
def compile (source : String) (options : CompileOptions) : Except Failure Code :=
  match Program.parse source with
  | .error faults => .error (.malformed faults)
  | .ok program =>
    match program.compile options with
    | .error diagnostics => .error (.illTyped diagnostics)
    | .ok code => .ok code

end Stackwright
