import Lox.Proofs.Trace

/-!
# The moments of a run

Of the notes of a run those are asked about here that say what runs at which depth: an expression or
a statement is entered or left, a call is carried out on a value, the body of a function begins or
ends. They are the moments of the run, the earliest first, and each has the machine as it is then.
-/

set_option autoImplicit false

namespace Lox

/-- What happens in a run. -/
inductive Moment where
  /-- An expression is about to be evaluated. -/
  | evaluates (e : Expr) (machine : Machine)
  /-- A statement is about to be executed. -/
  | executes (s : Stmt) (machine : Machine)
  /-- An expression or a statement is left, with a value or without. -/
  | leaves (machine : Machine)
  /-- The call of an expression is carried out on a value. -/
  | calls (site : CallSite) (callee : Value) (machine : Machine)
  /-- The body of a function begins. -/
  | begins (declaration : FunctionDecl) (machine : Machine)
  /-- The body of a function ends, with a value or without. -/
  | ends (machine : Machine)

namespace Moment

/-- The machine at a moment. -/
def machine : Moment → Machine
  | evaluates _ m | executes _ m | leaves m | calls _ _ m | begins _ m | ends m => m

/-- Whether at a moment something is only left. -/
def Unwinds : Moment → Prop
  | leaves _ | ends _ => True
  | evaluates _ _ | executes _ _ | calls _ _ _ | begins _ _ => False

end Moment

/-- The functions whose bodies are running after some moments, the innermost first, if those of
`stack` were running before. -/
def running (stack : List FunctionDecl) : List Moment → List FunctionDecl
  | [] => stack
  | .begins declaration _ :: rest => running (declaration :: stack) rest
  | .ends _ :: rest => running stack.tail rest
  | .evaluates _ _ :: rest | .executes _ _ :: rest | .leaves _ :: rest | .calls _ _ _ :: rest =>
    running stack rest

theorem running_append (stack : List FunctionDecl) (moments later : List Moment) :
    running stack (moments ++ later) = running (running stack moments) later := by
  induction moments generalizing stack with
  | nil => rfl
  | cons moment moments ih => cases moment <;> exact ih _

/-- The body that a call of a value runs: that of a function, or that of the initializer of a
class. -/
def Value.body? : Value → Option FunctionDecl
  | .closure f => some f.declaration
  | .class c => (c.method? initializerName).map Method.declaration
  | _ => none

/-- The moment that is noted, if it is one. -/
def Note.moment? : Note → Option Moment
  | evaluates e m => some (.evaluates e m)
  | executes s m => some (.executes s m)
  | leaves _ m => some (.leaves m)
  | calls site callee m => some (.calls site callee m)
  | begins declaration m => some (.begins declaration m)
  | ends m => some (.ends m)
  | uses _ _ | reads _ _ _ | sets _ _ _ _ | creates _ _ | opens _ _ _ _ | constructs _ _ _ _ _
  | invokes _ _ _ _ _ => none

/-- What happens when a session is given an input. A source that is refused runs nothing. -/
def Session.moments (session : Session) (input : Input) : List Moment :=
  (session.notes input).filterMap Note.moment?

end Lox
