/-!
# Diagnostics

What is wrong with a source, found before anything of it runs: the stage that found it, the line it
concerns and its wording.
-/

set_option autoImplicit false

namespace Lox

/-- The stages that read a source. -/
inductive Stage where
  | lexical
  | syntactic
  | static
  deriving DecidableEq, Repr

/-- A fault of a source. -/
structure Diagnostic where
  stage : Stage
  line : Nat
  message : String
  deriving DecidableEq, Repr

namespace Diagnostic

/-- The report of a fault to the user. -/
def report (d : Diagnostic) : String :=
  "[line " ++ toString d.line ++ "] Error: " ++ d.message

end Diagnostic

end Lox
