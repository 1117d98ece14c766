import Lox.Value

/-!
# Runtime errors

What can go wrong while a program runs, with the line of the expression that is to blame.
-/

set_option autoImplicit false

namespace Lox

/-- The causes of runtime errors. -/
inductive RuntimeError.Cause where
  | undefinedVariable (name : String)
  | undefinedProperty (name : String)
  | operandNotNumber (found : ValueType)
  | operandsNotNumbers (op : BinaryOp) (left right : ValueType)
  | operandsNotAddable (left right : ValueType)
  | notCallable
  | wrongArity (expected found : Nat)
  | readsPropertyOfNonInstance
  | setsFieldOfNonInstance
  | superclassNotClass
  | superOutsideClass
  /-- A function of the host failed with a message of its own. -/
  | native (message : String)
  /-- The output was refused. -/
  | output (reason : String)
  /-- Calls were nested too deeply. -/
  | stackOverflow
  deriving DecidableEq, Repr

/-- A fault of a running program. -/
structure RuntimeError where
  cause : RuntimeError.Cause
  line : Nat
  deriving DecidableEq, Repr

namespace RuntimeError

/-- The wording of a cause. -/
def Cause.message : Cause → String
  | .undefinedVariable name => "Undefined variable '" ++ name ++ "'."
  | .undefinedProperty name => "Undefined property '" ++ name ++ "'."
  | .operandNotNumber found => "Operand of '-' must be a number, got " ++ found.name ++ "."
  | .operandsNotNumbers op left right =>
    "Operands of '" ++ op.symbol ++ "' must be numbers, got " ++ left.name ++ " and "
      ++ right.name ++ "."
  | .operandsNotAddable left right =>
    "Operands must be two numbers or two strings, got " ++ left.name ++ " and " ++ right.name
      ++ "."
  | .notCallable => "Can only call functions and classes."
  | .wrongArity expected found =>
    "Expected " ++ toString expected ++ " arguments but got " ++ toString found ++ "."
  | .readsPropertyOfNonInstance => "Only instances have properties."
  | .setsFieldOfNonInstance => "Only instances have fields."
  | .superclassNotClass => "Superclass must be a class."
  | .superOutsideClass => "Can't use 'super' outside of a class."
  | .native message => message
  | .output reason => "Failed to write output: " ++ reason
  | .stackOverflow => "Stack overflow."

/-- The wording of an error, without its line. -/
def message (e : RuntimeError) : String :=
  e.cause.message

/-- The report of an error to the user. -/
def report (e : RuntimeError) : String :=
  e.message ++ "\n[line " ++ toString e.line ++ "]"

end RuntimeError

end Lox
