import Stackwright.Span

/-! What is wrong with a program that could be read. Types appear in a diagnostic as they are
written out, since they are only shown. -/

set_option autoImplicit false

namespace Stackwright

/-- The broad class of a diagnostic. -/
inductive Diagnostic.Kind where
  | redefinition
  | useBeforeDefine
  | typeMismatch
  | immutabilityViolation
  | misplacedStatement
  | missingReturn
  | unsupported
  deriving DecidableEq, Repr

def Diagnostic.Kind.text : Diagnostic.Kind → String
  | .redefinition => "redefinition"
  | .useBeforeDefine => "use before define"
  | .typeMismatch => "type mismatch"
  | .immutabilityViolation => "immutability violation"
  | .misplacedStatement => "misplaced statement"
  | .missingReturn => "missing return"
  | .unsupported => "unsupported"

inductive Diagnostic.Cause where
  | redefinition (name : String)
  | useBeforeDefine (name : String)
  | noMatchingOperator (operator operands : String)
  | assignmentMismatch (name expected found : String)
  | returnMismatch (expected found : String)
  | argumentMismatch (name expected found : String)
  | notCallable (name found : String)
  | conditionNotBool (found : String)
  | notAValue (context found : String)
  | immutableAssignment (name : String)
  | returnOutsideFunction
  | missingReturn (name expected : String)
  | unsupported (what : String)
  deriving DecidableEq, Repr

namespace Diagnostic.Cause

def kind : Cause → Kind
  | .redefinition _ => .redefinition
  | .useBeforeDefine _ => .useBeforeDefine
  | .noMatchingOperator _ _ | .assignmentMismatch _ _ _ | .returnMismatch _ _
  | .argumentMismatch _ _ _ | .notCallable _ _ | .conditionNotBool _ | .notAValue _ _ => .typeMismatch
  | .immutableAssignment _ => .immutabilityViolation
  | .returnOutsideFunction => .misplacedStatement
  | .missingReturn _ _ => .missingReturn
  | .unsupported _ => .unsupported

def text : Cause → String
  | .redefinition name => "'" ++ name ++ "' is already defined in this scope"
  | .useBeforeDefine name => "'" ++ name ++ "' is used before it is defined"
  | .noMatchingOperator operator operands =>
    "operator '" ++ operator ++ "' not defined for operand types (" ++ operands ++ ")"
  | .assignmentMismatch name expected found =>
    "cannot assign a value of type " ++ found ++ " to '" ++ name ++ "' of type " ++ expected
  | .returnMismatch expected found => "function returns " ++ expected ++ " but this returns " ++ found
  | .argumentMismatch name expected found =>
    "'" ++ name ++ "' expects " ++ expected ++ ", called with (" ++ found ++ ")"
  | .notCallable name found => "'" ++ name ++ "' has type " ++ found ++ " and cannot be called"
  | .conditionNotBool found => "if condition must be bool, found " ++ found
  | .notAValue context found => context ++ " requires an int or bool value, found " ++ found
  | .immutableAssignment name => "cannot assign to immutable '" ++ name ++ "'"
  | .returnOutsideFunction => "return is only allowed inside a function"
  | .missingReturn name expected =>
    "function '" ++ name ++ "' may finish without returning a " ++ expected
  | .unsupported what => what ++ " is not supported"

end Diagnostic.Cause

structure Diagnostic where
  cause : Diagnostic.Cause
  span : Span
  deriving DecidableEq, Repr

namespace Diagnostic

def kind (diagnostic : Diagnostic) : Kind := diagnostic.cause.kind

def message (diagnostic : Diagnostic) : String :=
  "at " ++ diagnostic.span.text ++ ": " ++ diagnostic.cause.text

end Diagnostic

end Stackwright
