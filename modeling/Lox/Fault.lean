import Lox.Diagnostic
import Lox.RuntimeError
import Lox.Text.Utf8

/-!
# Faults

All that can be reported to the user of the program, with the exit code that it leads to.
-/

set_option autoImplicit false

namespace Lox

/-- Something to report. -/
inductive Fault where
  /-- The source is not a program. -/
  | source (d : Diagnostic)
  /-- The program failed. -/
  | runtime (e : RuntimeError)
  /-- Reading or writing failed. -/
  | io (message : String)
  /-- The source is not text. -/
  | encoding (fault : Utf8.Malformed)
  deriving DecidableEq, Repr

namespace Fault

/-- The wording of a fault. -/
def report : Fault → String
  | .source d => d.report
  | .runtime e => e.report
  | .io message => message
  | .encoding fault => fault.message

/-- The line to which a fault points. -/
def line? : Fault → Option Nat
  | .source d => some d.line
  | .runtime e => some e.line
  | .io _ | .encoding _ => none

/-- The exit code for a fault: bad input, a failed program, or failed input and output. -/
def exitCode : Fault → Nat
  | .source _ => 65
  | .runtime _ => 70
  | .io _ | .encoding _ => 74

end Fault

end Lox
